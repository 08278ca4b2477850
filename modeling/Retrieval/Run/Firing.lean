import Retrieval.Run.Basic

namespace Retrieval

inductive Hook.Outcome where
  | assigned (names : List String)
  | emailed (recipient : String)
  | queried (rows : List Row)
  deriving Repr

namespace Hook

def inputs (record : Row) (parameters : List Parameter) : Except Request.Error (List Json) :=
  parameters.mapM fun p =>
    let key := p.bind.getD keyField
    match record.find? key with
    | some v => .ok v
    | none => .error (.unboundField key)

def email (recipient template : String) (record : Row) : Run Outcome := do
  Run.mail recipient template record
  pure (.emailed recipient)

def ask (q : QueryTemplate) (record : Row) : Run Outcome := do
  let inputs ← Run.ofRequest (inputs record q.parameters)
  let rows ← q.run inputs
  pure (.queried rows)

/-- One fired hook: how it went, and the record after it. -/
structure Firing where
  outcome : Except Run.Error Outcome
  record : Row

def fire (h : Hook) (w : World) (history : History) (record : Row) : Firing × History :=
  match h.action with
  | .set assignments => (⟨.ok (.assigned assignments.keys), record.overlay assignments⟩, history)
  | .email recipient template =>
    let (outcome, history) := Run.after w history (email recipient template record)
    (⟨outcome, record⟩, history)
  | .query q =>
    let (outcome, history) := Run.after w history (ask q record)
    (⟨outcome, record⟩, history)

/-- Fires hooks one after the other against a record, going on after failures. -/
def fireAll (w : World) (history : History) (record : Row) : List Hook → List Firing × History
  | [] => ([], history)
  | h :: rest =>
    let (firing, history) := h.fire w history record
    let (later, history) := fireAll w history firing.record rest
    (firing :: later, history)

end Hook

end Retrieval
