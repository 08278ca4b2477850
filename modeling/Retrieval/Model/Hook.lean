import Retrieval.Model.Template

namespace Retrieval

inductive Hook.Action where
  | set (assignments : Dict Json)
  | email (recipient template : String)
  | query (q : QueryTemplate)
  deriving Repr

def Hook.Action.kind : Hook.Action → String
  | set _ => "set"
  | email .. => "email"
  | query _ => "raw"

structure Hook where
  collection : String
  field : String
  event : String
  action : Hook.Action
  deriving Repr

def Hook.waitsFor (h : Hook) (field event : String) : Bool :=
  h.field == field && h.event == event

end Retrieval
