import Retrieval.Field.Column
import Retrieval.Request.Error
import Retrieval.Text.Positional

namespace Retrieval

structure Parameter where
  field : Field
  /-- The record field that a hook passes here; the record's key if absent. -/
  bind : Option String
  deriving Repr

structure QueryTemplate where
  name : String
  template : String
  parameters : List Parameter
  columns : Dict Field
  deriving Repr

namespace QueryTemplate

def literals (name : String) (index : Nat) :
    List (Parameter × Json) → Except Request.Error (List String)
  | [] => .ok []
  | (parameter, input) :: rest =>
    match parameter.field.literal input with
    | .error cause => .error (.invalidValue (name ++ "[" ++ toString index ++ "]") cause)
    | .ok l => (literals name (index + 1) rest).map (l.sql :: ·)

def bind (q : QueryTemplate) (inputs : List Json) : Except Request.Error String :=
  if inputs.length ≠ q.parameters.length then
    .error (.parameterCount inputs.length q.parameters.length)
  else
    (literals q.name 0 (q.parameters.zip inputs)).map (Positional.replace q.template)

def output (q : QueryTemplate) : List ResultColumn :=
  q.columns.entries.map fun e => ⟨e.1, e.1, e.2.scan⟩

end QueryTemplate

end Retrieval
