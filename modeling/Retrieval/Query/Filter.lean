import Retrieval.Query.Search

namespace Retrieval

namespace Filter

def conditions (r : Request) : List Condition :=
  match r.pk with
  | none => r.conditions
  | some pk => ⟨keyField, "=", .int pk.toNat⟩ :: r.conditions

/-- Tags an error with the number of predicates that stand before it. -/
def tag (index : Nat) : Except Request.Error α → Except Request.Error α
  | .ok a => .ok a
  | .error cause => .error (.condition index cause)

def addConditions (p : Selection) (done : List Sql.Expr) :
    List Condition → Except Request.Error (List Sql.Expr)
  | [] => .ok done
  | c :: rest =>
    match tag done.length (c.predicate p) with
    | .error e => .error e
    | .ok predicate => addConditions p (done ++ [predicate]) rest

def addSearches (c : Collection) (p : Selection) (done : List Sql.Expr) :
    List (String × String) → Except Request.Error (List Sql.Expr)
  | [] => .ok done
  | (key, term) :: rest =>
    match tag done.length (Search.predicates c p key term) with
    | .error e => .error e
    | .ok predicates => addSearches c p (done ++ predicates) rest

/-- All predicates of a request: key, conditions, and search entries by key. -/
def predicates (c : Collection) (p : Selection) (r : Request) :
    Except Request.Error (List Sql.Expr) := do
  let done ← addConditions p [] (conditions r)
  addSearches c p done r.search.entries

end Filter

/-- A sort entry refers to the label of its column. -/
def SortEntry.order (p : Selection) (s : SortEntry) : Except Request.Error Sql.Order :=
  match p.get? s.field with
  | none => .error (.unmappedSort s.field)
  | some f =>
    .ok ⟨.column none f.label, if s.direction < 0 then .descending else .ascending⟩

/-- A limit counts only if it is positive. The database reads offsets as signed numbers of 64
bits, so a greater one is refused. -/
def Sql.Page.ofRequest (limit : Option Int64) (offset : Option UInt64) :
    Except Request.Error Sql.Page :=
  let limit := limit.bind fun n => if 0 < n then some n.toUInt64 else none
  match offset with
  | none => .ok ⟨limit, none⟩
  | some n => if n.toNat ≤ Int64.maxValue.toInt then .ok ⟨limit, some n⟩
    else .error (.offsetOutOfRange n)

end Retrieval
