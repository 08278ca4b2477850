import Retrieval.Query.Condition
import Retrieval.Text.Words

namespace Retrieval.Search

def everywhere : String := "*"

/-- The field that a term on all fields is redirected to, with what is left of the term. -/
def redirect? (c : Collection) (term : List Char) : Option (String × List Char) :=
  match Text.recordId? term, Text.cutAt? ':' term with
  | none, some (head, rest) => (c.searchPrefixes.find? (String.ofList head)).map (·, rest)
  | _, _ => none

theorem redirect?_length {c : Collection} {term rest : List Char} {key : String}
    (h : redirect? c term = some (key, rest)) : rest.length < term.length := by
  unfold redirect? at h
  split at h
  · rename_i head tail _ hcut
    obtain ⟨target, _, heq⟩ := Option.map_eq_some_iff.1 h
    simp only [Prod.mk.injEq] at heq
    rw [← heq.2]
    exact Text.cutAt?_length hcut
  · cases h

/-- Where a search ends up. Each redirection drops a colon from the term, so a prefix may well be
redirected to `*`, or to itself. -/
def route (c : Collection) (key : String) (term : List Char) : String × List Char :=
  if key = everywhere then
    match _h : redirect? c term with
    | some (target, rest) => route c target rest
    | none => (key, term)
  else (key, term)
termination_by term.length
decreasing_by exact redirect?_length _h

def inField (p : Selection) (key : String) (words : List String) :
    Except Request.Error Sql.Expr := do
  let f ← p.lookup key
  let found ← words.mapM fun w => f.contains (.string w)
  .ok (.anyGroup found)

def inAnyField (p : Selection) (word : String) : Except Request.Error Sql.Expr := do
  let found ← p.searchable.mapM (·.contains (.string word))
  .ok (.anyGroup found)

def direct (p : Selection) (key : String) (term : List Char) :
    Except Request.Error (List Sql.Expr) :=
  let words := (Text.words term).map String.ofList
  if key = everywhere then
    match Text.recordId? term with
    | some n => do
      let e ← Condition.predicate p ⟨keyField, "=", .int n.toNat⟩
      .ok [e]
    | none => words.mapM (inAnyField p)
  else if words.isEmpty then .ok []
  else do
    let e ← inField p key words
    .ok [e]

/-- A term on a field asks for any of its words in that field. A term on `*` asks for each of its
words in any searchable field, unless it is the number of a record or a prefix redirects it to a
field. -/
def predicates (c : Collection) (p : Selection) (key term : String) :
    Except Request.Error (List Sql.Expr) :=
  let routed := route c key term.toList
  direct p routed.1 routed.2

end Retrieval.Search
