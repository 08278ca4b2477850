import Retrieval.Proofs.Model.Template
import Retrieval.Proofs.Run.Basic
import Retrieval.Run.Firing

namespace Retrieval

def Parameter.source (p : Parameter) : String :=
  p.bind.getD keyField

namespace QueryTemplate

variable {q : QueryTemplate} {inputs : List Json} {w : World} {history : History}

theorem after_run_ok {sql : String} (hb : q.bind inputs = .ok sql) :
    Run.after w history (q.run inputs) = Run.after w history (Run.rows sql q.output) := by
  rw [run, hb]
  exact Run.after_bind_ok (Run.after_ofRequest_ok sql) _

theorem after_run_error {e : Request.Error} (hb : q.bind inputs = .error e) :
    Run.after w history (q.run inputs) = (.error (.request e), history) := by
  rw [run, hb]
  exact Run.after_bind_error (Run.after_ofRequest_error e) _

end QueryTemplate

namespace Hook

def Found (record : Row) (parameters : List Parameter) (inputs : List Json) : Prop :=
  List.Forall₂ (fun p v => record.find? p.source = some v) parameters inputs

/-- Why a query is not asked: the first of its fields that the record lacks, or the first input that is no value of
its parameter. -/
inductive Refused (record : Row) (q : QueryTemplate) : Request.Error → Prop
  | missing {before after : List Parameter} {p : Parameter} (hp : q.parameters = before ++ p :: after)
      (hbefore : ∀ earlier ∈ before, ∃ v, record.find? earlier.source = some v)
      (h : record.find? p.source = none) : Refused record q (.unboundField p.source)
  | rejected {inputs : List Json} (hi : Found record q.parameters inputs) {before after : List (Parameter × Json)}
      {p : Parameter} {v : Json} {cause : Field.Error} (hp : q.parameters.zip inputs = before ++ (p, v) :: after)
      (hbefore : ∀ pair ∈ before, QueryTemplate.Takes pair) (h : p.field.literal v = .error cause) :
      Refused record q (.invalidValue (q.name ++ "[" ++ toString before.length ++ "]") cause)

/-- What an action does: the answer, the record after it, and what has been sent then. Only an assignment leaves
another record. -/
inductive Does (w : World) (history : History) (record : Row) : Action → Firing × History → Prop
  | assigns (assignments : Dict Json) : Does w history record (.set assignments)
      (⟨.ok (.assigned assignments.keys), record.overlay assignments⟩, history)
  | mails {recipient template : String} (h : w.deliver history recipient template record = .ok ()) :
      Does w history record (.email recipient template)
        (⟨.ok (.emailed recipient), record⟩, history ++ [.mail recipient template record])
  | unmailed {recipient template problem : String}
      (h : w.deliver history recipient template record = .error problem) :
      Does w history record (.email recipient template) (⟨.error (.mail problem), record⟩, history)
  | refused {q : QueryTemplate} {e : Request.Error} (h : Refused record q e) :
      Does w history record (.query q) (⟨.error (.request e), record⟩, history)
  | disconnected {q : QueryTemplate} {inputs : List Json} {sql : String} {e : Run.Error}
      (hi : Found record q.parameters inputs) (hb : q.bind inputs = .ok sql)
      (h : w.connect history = .error e) :
      Does w history record (.query q) (⟨.error e, record⟩, history)
  | asks {q : QueryTemplate} {inputs : List Json} {sql : String} (hi : Found record q.parameters inputs)
      (hb : q.bind inputs = .ok sql) (h : w.connect history = .ok ()) :
      Does w history record (.query q)
        (⟨((w.query history sql q.output).map (·.map (Run.keyRow q.output))).map .queried, record⟩,
          history ++ [.statement sql q.output])

variable {h : Hook} {q : QueryTemplate} {record : Row} {inputs : List Json} {w : World} {history : History}
  {e : Request.Error}

theorem fire_set {assignments : Dict Json} (ha : h.action = .set assignments) :
    h.fire w history record = (⟨.ok (.assigned assignments.keys), record.overlay assignments⟩, history) := by
  rw [fire, ha]

theorem fire_email {recipient template : String} {outcome : Except Run.Error Outcome} {history' : History}
    (ha : h.action = .email recipient template)
    (hr : Run.after w history (email recipient template record) = (outcome, history')) :
    h.fire w history record = (⟨outcome, record⟩, history') := by
  rw [fire, ha]
  dsimp only
  rw [hr]

theorem fire_query {outcome : Except Run.Error Outcome} {history' : History} (ha : h.action = .query q)
    (hr : Run.after w history (ask q record) = (outcome, history')) :
    h.fire w history record = (⟨outcome, record⟩, history') := by
  rw [fire, ha]
  dsimp only
  rw [hr]

theorem after_email_ok {recipient template : String} (h : w.deliver history recipient template record = .ok ()) :
    Run.after w history (email recipient template record) =
      (.ok (.emailed recipient), history ++ [.mail recipient template record]) := by
  rw [email, Run.after_bind_ok (Run.after_mail_ok h)]
  rfl

theorem after_email_error {recipient template problem : String}
    (h : w.deliver history recipient template record = .error problem) :
    Run.after w history (email recipient template record) = (.error (.mail problem), history) := by
  rw [email, Run.after_bind_error (Run.after_mail_error h)]

theorem after_ask (hi : Hook.inputs record q.parameters = .ok inputs) :
    Run.after w history (ask q record) =
      Run.after w history (q.run inputs >>= fun rows => pure (.queried rows)) := by
  rw [ask, hi]
  exact Run.after_bind_ok (Run.after_ofRequest_ok inputs) _

theorem after_ask_unbound (hi : Hook.inputs record q.parameters = .error e) :
    Run.after w history (ask q record) = (.error (.request e), history) := by
  rw [ask, hi]
  exact Run.after_bind_error (Run.after_ofRequest_error e) _

theorem after_ask_sent (hi : Hook.inputs record q.parameters = .ok inputs) {sql : String}
    (hb : q.bind inputs = .ok sql) (hconnect : w.connect history = .ok ()) :
    Run.after w history (ask q record) =
      (((w.query history sql q.output).map (·.map (Run.keyRow q.output))).map .queried,
        history ++ [.statement sql q.output]) := by
  rw [after_ask hi]
  apply Run.after_map
  rw [QueryTemplate.after_run_ok hb, Run.after_rows_ok hconnect]

theorem after_ask_disconnected (hi : Hook.inputs record q.parameters = .ok inputs) {sql : String}
    (hb : q.bind inputs = .ok sql) {e : Run.Error} (hconnect : w.connect history = .error e) :
    Run.after w history (ask q record) = (.error e, history) := by
  rw [after_ask hi]
  apply Run.after_bind_error
  rw [QueryTemplate.after_run_ok hb, Run.after_rows_error hconnect]

def input (record : Row) (p : Parameter) : Except Request.Error Json :=
  match record.find? p.source with
  | some v => .ok v
  | none => .error (.unboundField p.source)

theorem inputs_eq_mapM (record : Row) (parameters : List Parameter) :
    Hook.inputs record parameters = parameters.mapM (input record) := rfl

theorem input_eq_ok {p : Parameter} {v : Json} : input record p = .ok v ↔ record.find? p.source = some v := by
  rw [input]
  cases record.find? p.source <;> simp

theorem input_eq_error {p : Parameter} :
    input record p = .error e ↔ record.find? p.source = none ∧ .unboundField p.source = e := by
  rw [input]
  cases record.find? p.source <;> simp

theorem inputs_eq_ok {parameters : List Parameter} :
    Hook.inputs record parameters = .ok inputs ↔ Found record parameters inputs := by
  simp only [inputs_eq_mapM, mapM_eq_ok, input_eq_ok, Found]

theorem refused_of_inputs (h : Hook.inputs record q.parameters = .error e) :
    ∃ key, record.find? key = none ∧ e = .unboundField key ∧ Refused record q e := by
  rw [inputs_eq_mapM, mapM_eq_error] at h
  obtain ⟨before, p, after, hp, hbefore, h⟩ := h
  simp only [input_eq_ok] at hbefore
  obtain ⟨hmissing, rfl⟩ := input_eq_error.1 h
  exact ⟨p.source, hmissing, rfl, .missing hp hbefore hmissing⟩

theorem bind_eq_map (hi : Found record q.parameters inputs) : q.bind inputs =
    (QueryTemplate.literals q.name 0 (q.parameters.zip inputs)).map (Positional.replace q.template) := by
  rw [QueryTemplate.bind, if_neg (not_not.2 hi.length_eq.symm)]

theorem refused_of_bind (hi : Found record q.parameters inputs) (h : q.bind inputs = .error e) :
    Refused record q e := by
  rw [bind_eq_map hi, map_eq_error] at h
  cases hm : (q.parameters.zip inputs).mapM (fun pair => pair.1.field.literal pair.2) with
  | ok ls =>
    have hvalues : ∃ values, QueryTemplate.literals q.name 0 (q.parameters.zip inputs) = .ok values :=
      QueryTemplate.exists_literals.2 (exists_forall₂.1 ⟨ls, mapM_eq_ok.1 hm⟩)
    obtain ⟨values, hvalues⟩ := hvalues
    rw [h] at hvalues
    cases hvalues
  | error cause =>
    obtain ⟨before, ⟨p, v⟩, after, hp, hbefore, hcause⟩ := mapM_eq_error.1 hm
    rw [hp, QueryTemplate.literals_refused hbefore hcause, Nat.zero_add] at h
    cases h
    exact .rejected hi hp hbefore hcause

/-- A query that is refused is nothing but its error, in whatever outside it is fired. -/
theorem fire_refused (hq : h.action = .query q) (hr : Refused record q e) (w : World) (history : History) :
    h.fire w history record = (⟨.error (.request e), record⟩, history) := by
  apply fire_query hq
  cases hr with
  | @missing _ _ p hp hbefore hmissing =>
    apply after_ask_unbound
    rw [inputs_eq_mapM, mapM_eq_error]
    refine ⟨_, _, _, hp, ?_, input_eq_error.2 ⟨hmissing, rfl⟩⟩
    simpa only [input_eq_ok] using hbefore
  | rejected hi hp hbefore hcause =>
    rw [after_ask (inputs_eq_ok.2 hi)]
    apply Run.after_bind_error
    apply QueryTemplate.after_run_error
    rw [bind_eq_map hi, hp, QueryTemplate.literals_refused hbefore hcause, Nat.zero_add]
    rfl

theorem exists_refused {p : Parameter} (hp : p ∈ q.parameters) (h : record.find? p.source = none ∨
    ∃ v cause, record.find? p.source = some v ∧ p.field.literal v = .error cause) : ∃ e, Refused record q e := by
  cases hi : Hook.inputs record q.parameters with
  | error e =>
    obtain ⟨_, _, _, hr⟩ := refused_of_inputs hi
    exact ⟨e, hr⟩
  | ok inputs =>
    have hfound := inputs_eq_ok.1 hi
    cases hb : q.bind inputs with
    | error e => exact ⟨e, refused_of_bind hfound hb⟩
    | ok sql =>
      obtain ⟨i, hpi⟩ := List.mem_iff_getElem?.1 hp
      obtain ⟨v, hvi, hv⟩ := exists_getElem?_right hfound hpi
      have hmem : (p, v) ∈ q.parameters.zip inputs :=
        List.mem_of_getElem? (List.getElem?_zip_eq_some.2 ⟨hpi, hvi⟩)
      obtain ⟨_, ls, hls, _⟩ := QueryTemplate.bind_ok hb
      obtain ⟨l, hl⟩ := exists_forall₂.1 ⟨ls, hls⟩ (p, v) hmem
      obtain hnone | ⟨v', cause, hv', hcause⟩ := h
      · rw [hv] at hnone
        cases hnone
      · rw [hv] at hv'
        cases hv'
        rw [hl] at hcause
        cases hcause

/-- A field that is missing is never taken for a null. -/
theorem exists_refused_missing {p : Parameter} (hp : p ∈ q.parameters) (h : record.find? p.source = none) :
    ∃ key, record.find? key = none ∧ Refused record q (.unboundField key) := by
  cases hi : Hook.inputs record q.parameters with
  | error e =>
    obtain ⟨key, hkey, rfl, hr⟩ := refused_of_inputs hi
    exact ⟨key, hkey, hr⟩
  | ok inputs =>
    obtain ⟨v, hv⟩ := exists_forall₂.1 ⟨inputs, inputs_eq_ok.1 hi⟩ p hp
    rw [h] at hv
    cases hv

theorem does_fire (w : World) (history : History) (record : Row) (h : Hook) :
    Does w history record h.action (h.fire w history record) := by
  cases ha : h.action with
  | set assignments =>
    rw [fire_set ha]
    exact .assigns assignments
  | email recipient template =>
    cases hd : w.deliver history recipient template record with
    | ok =>
      rw [fire_email ha (after_email_ok hd)]
      exact .mails hd
    | error problem =>
      rw [fire_email ha (after_email_error hd)]
      exact .unmailed hd
  | query q =>
    cases hi : Hook.inputs record q.parameters with
    | error e =>
      obtain ⟨_, _, _, hr⟩ := refused_of_inputs hi
      rw [fire_refused ha hr]
      exact .refused hr
    | ok inputs =>
      have hfound := inputs_eq_ok.1 hi
      cases hb : q.bind inputs with
      | error e =>
        have hr := refused_of_bind hfound hb
        rw [fire_refused ha hr]
        exact .refused hr
      | ok sql =>
        cases hconnect : w.connect history with
        | ok =>
          rw [fire_query ha (after_ask_sent hi hb hconnect)]
          exact .asks hfound hb hconnect
        | error e =>
          rw [fire_query ha (after_ask_disconnected hi hb hconnect)]
          exact .disconnected hfound hb hconnect

/-- Mails and queries leave the record as it is, whether they succeed or fail. -/
theorem fire_record (hset : ∀ assignments, h.action ≠ .set assignments) :
    (h.fire w history record).1.record = record := by
  have hdoes := does_fire w history record h
  generalize h.fire w history record = fired at hdoes
  cases ha : h.action with
  | set assignments => exact absurd ha (hset assignments)
  | email | query =>
    rw [ha] at hdoes
    cases hdoes <;> rfl

end Hook

end Retrieval
