import Retrieval.Proofs.Model.WellFormed
import Retrieval.Proofs.Run.Action

namespace Retrieval

def Request.Error.isUnbound : Request.Error → Bool
  | .unboundField _ | .parameterCount .. => true
  | _ => false

def Run.Error.isUnbound : Run.Error → Bool
  | .request cause => cause.isUnbound
  | _ => false

def Effect.IsComplete : Effect → Prop
  | .statement sql _ => Positional.questionMarks sql = 0
  | .mail .. => True

/-- A record has a value for every field of a collection. -/
def Row.Fills (c : Collection) (record : Row) : Prop :=
  ∀ field, c.fields.contains field = true → record.contains field = true

/-- A hook is fired with all its inputs. Only the pool or a connection could answer that it is not, and what a
connection is sent is complete. -/
structure Hook.FiresBound (w : World) (history : History) (record : Row) (h : Hook) : Prop where
  unbound : ∀ e, (h.fire w history record).1.outcome = .error e → e.isUnbound = true →
    w.connect history = .error e ∨ ∃ sql columns,
      (h.fire w history record).2 = history ++ [.statement sql columns] ∧ w.query history sql columns = .error e
  inputs : ∀ q, h.action = .query q → ∃ inputs, Hook.inputs record q.parameters = .ok inputs ∧
    ∀ sql, q.bind inputs = .ok sql → Positional.questionMarks sql = 0 ∧
      (w.connect history = .ok () → (h.fire w history record).2 = history ++ [.statement sql q.output])
  complete : ∀ effect ∈ (h.fire w history record).2, effect ∈ history ∨ effect.IsComplete

namespace Hook

variable {h : Hook} {q : QueryTemplate} {record : Row} {inputs : List Json} {w : World} {history : History}
  {c : Collection} {m : Model} {name : String}

theorem exists_inputs (hc : c.WellFormed m name) (hh : h ∈ c.hooks) (hq : h.action = .query q)
    (hr : Row.Fills c record) :
    ∃ inputs, Hook.inputs record q.parameters = .ok inputs ∧ inputs.length = q.parameters.length := by
  have hfound : ∀ p ∈ q.parameters, ∃ v, record.find? p.source = some v := by
    intro p hp
    apply Option.isSome_iff_exists.1
    apply hr
    rw [Parameter.source]
    cases hb : p.bind with
    | none => exact hc.key
    | some field => exact hc.bindings h hh q hq p hp field hb
  obtain ⟨inputs, hi⟩ := exists_forall₂.2 hfound
  exact ⟨inputs, inputs_eq_ok.2 hi, hi.length_eq.symm⟩

theorem questionMarks_of_bind (hc : c.WellFormed m name) (hh : h ∈ c.hooks) (hq : h.action = .query q)
    {sql : String} (hb : q.bind inputs = .ok sql) : Positional.questionMarks sql = 0 := by
  rw [QueryTemplate.questionMarks_of_bind hb, hc.queries h hh q hq, Nat.sub_self]

/-- What firing a hook comes to, if it has all its inputs: nothing is sent, or a mail, or a complete
statement. The failure of the pool or of the statement is the failure of the hook. -/
inductive Fired (w : World) (history : History) : Except Run.Error Outcome → History → Prop
  | assigned (names : List String) : Fired w history (.ok (.assigned names)) history
  | emailed (recipient template : String) (record : Row) :
      Fired w history (.ok (.emailed recipient)) (history ++ [.mail recipient template record])
  | refused {e : Run.Error} (he : e.isUnbound = false) : Fired w history (.error e) history
  | disconnected {e : Run.Error} (he : w.connect history = .error e) : Fired w history (.error e) history
  | queried {sql : String} (hsql : Positional.questionMarks sql = 0) (columns : List ResultColumn) :
      Fired w history (((w.query history sql columns).map (·.map (Run.keyRow columns))).map .queried)
        (history ++ [.statement sql columns])

theorem fired_of_wellFormed (hc : c.WellFormed m name) (hh : h ∈ c.hooks) (hr : Row.Fills c record)
    (w : World) (history : History) :
    Fired w history (h.fire w history record).1.outcome (h.fire w history record).2 := by
  have hdoes := does_fire w history record h
  generalize ha : h.action = action, h.fire w history record = fired at hdoes
  cases hdoes with
  | assigns assignments => exact .assigned assignments.keys
  | mails => exact .emailed _ _ record
  | unmailed => exact .refused rfl
  | disconnected _ _ hconnect => exact .disconnected hconnect
  | refused hrefused =>
    cases hrefused with
    | @missing _ _ p hp _ hmissing =>
      obtain ⟨inputs, hi, _⟩ := exists_inputs hc hh ha hr
      obtain ⟨v, hv⟩ := exists_forall₂.1 ⟨inputs, inputs_eq_ok.1 hi⟩ p (by simp [hp])
      rw [hmissing] at hv
      cases hv
    | rejected => exact .refused rfl
  | asks hi hb => exact .queried (questionMarks_of_bind hc hh ha hb) _

theorem firesBound_of_wellFormed (hc : c.WellFormed m name) (hh : h ∈ c.hooks) (hr : Row.Fills c record)
    (w : World) (history : History) : h.FiresBound w history record := by
  have hfired := fired_of_wellFormed hc hh hr w history
  refine ⟨?unbound, ?inputs, ?complete⟩
  case unbound =>
    intro e he hunbound
    generalize (h.fire w history record).1.outcome = outcome, (h.fire w history record).2 = sent at hfired he ⊢
    cases hfired with
    | assigned | emailed => cases he
    | refused hbound =>
      cases he
      rw [hbound] at hunbound
      cases hunbound
    | disconnected hconnect =>
      cases he
      exact .inl hconnect
    | @queried sql _ columns => exact .inr ⟨sql, columns, rfl, map_eq_error.1 (map_eq_error.1 he)⟩
  case inputs =>
    intro q hq
    obtain ⟨inputs, hi, _⟩ := exists_inputs hc hh hq hr
    refine ⟨inputs, hi, fun sql hsql => ⟨questionMarks_of_bind hc hh hq hsql, fun hconnect => ?_⟩⟩
    rw [fire_query hq (after_ask_sent hi hsql hconnect)]
  case complete =>
    intro effect heffect
    generalize (h.fire w history record).1.outcome = outcome, (h.fire w history record).2 = sent at hfired heffect
    cases hfired with
    | assigned | refused | disconnected => exact .inl heffect
    | emailed recipient template record =>
      rw [List.mem_append, List.mem_singleton] at heffect
      obtain hold | rfl := heffect
      · exact .inl hold
      · exact .inr trivial
    | queried hsql columns =>
      rw [List.mem_append, List.mem_singleton] at heffect
      obtain hold | rfl := heffect
      · exact .inl hold
      · exact .inr hsql

/-- Every hook of a loaded model is fired with all its inputs, if the record has all fields of its collection. -/
theorem firesBound_of_ofDocument {types : FieldTypes} {d : ModelDocument} (hl : Model.ofDocument types d = .ok m)
    (hc : m.collection name = .ok c) (hh : h ∈ c.hooks) (hr : Row.Fills c record) (w : World)
    (history : History) : h.FiresBound w history record :=
  firesBound_of_wellFormed (Model.collection_wellFormed hl (Model.collection_eq_ok.1 hc)) hh hr w history

def writtenPost : Row :=
  .ofList [("author", .int 7), ("editor", .null), ("id", .int 1), ("title", .string "Who? What?")]

theorem firesBound_blog : ∃ m c hook q, Model.ofDocument .builtin .blog = .ok m ∧
    m.collection "post" = .ok c ∧ hook ∈ c.hooks ∧ hook.action = .query q ∧ Row.Fills c writtenPost ∧
    q.bind [.int 7] = .ok "UPDATE author SET posts = posts + 1 WHERE id = 7" ∧
    hook.FiresBound (.ofResult ⟨[], []⟩) [] writtenPost := by
  obtain ⟨m, hl, h⟩ := exists_of_passes (show passes (fun m => passes (fun c =>
      c.fields.keys.all (writtenPost.contains ·) && c.hooks.any fun hook => match hook.action with
        | .query q => passes (· = "UPDATE author SET posts = posts + 1 WHERE id = 7") (q.bind [.int 7])
        | .set _ | .email .. => false)
      (m.collection "post")) (Model.ofDocument .builtin .blog) = true by decide +kernel)
  obtain ⟨c, hc, h⟩ := exists_of_passes h
  obtain ⟨hkeys, hhook⟩ := Bool.and_eq_true_iff.1 h
  obtain ⟨hook, hh, haction⟩ := List.any_eq_true.1 hhook
  cases ha : hook.action with
  | set | email => simp [ha] at haction
  | query q =>
    simp only [ha] at haction
    obtain ⟨sql, hsql, haction⟩ := exists_of_passes haction
    rw [of_decide_eq_true haction] at hsql
    have hfills : Row.Fills c writtenPost := fun field hfield =>
      List.all_eq_true.1 hkeys field (Dict.contains_iff_mem_keys.1 hfield)
    exact ⟨m, c, hook, q, hl, hc, hh, ha, hfills, hsql, firesBound_of_ofDocument hl hc hh hfills _ _⟩

theorem fills_fire (hr : Row.Fills c record) (w : World) (history : History) (h : Hook) :
    Row.Fills c (h.fire w history record).1.record := by
  cases ha : h.action with
  | set assignments =>
    rw [fire_set ha]
    intro field hfield
    rw [Dict.contains_iff_mem_keys, Dict.mem_keys_overlay]
    exact .inl (Dict.contains_iff_mem_keys.1 (hr field hfield))
  | email | query =>
    rw [fire_record (by simp [ha])]
    exact hr

/-- Hooks that are fired one after the other, whatever becomes of those before, have all their inputs. -/
theorem fireAll_bound (hc : c.WellFormed m name) {hooks : List Hook} (hh : ∀ h ∈ hooks, h ∈ c.hooks)
    (hr : Row.Fills c record) (w : World) (history : History) :
    (∀ firing ∈ (fireAll w history record hooks).1, ∀ e, firing.outcome = .error e → e.isUnbound = true →
      ∃ history', w.connect history' = .error e ∨ ∃ sql columns, w.query history' sql columns = .error e) ∧
    ∀ effect ∈ (fireAll w history record hooks).2, effect ∈ history ∨ effect.IsComplete := by
  induction hooks generalizing record history with
  | nil => exact ⟨fun _ h => (List.not_mem_nil h).elim, fun _ h => .inl h⟩
  | cons h rest ih =>
    rw [List.forall_mem_cons] at hh
    have hfirst := firesBound_of_wellFormed hc hh.1 hr w history
    -- the later hooks see the record that this one leaves, and what it has sent
    obtain ⟨hunbound, hcomplete⟩ := ih hh.2 (fills_fire hr w history h) (h.fire w history record).2
    constructor
    · intro firing hfiring e he hbound
      obtain rfl | hrest := List.mem_cons.1 hfiring
      · obtain hconnect | ⟨sql, columns, _, hquery⟩ := hfirst.unbound e he hbound
        · exact ⟨history, .inl hconnect⟩
        · exact ⟨history, .inr ⟨sql, columns, hquery⟩⟩
      · exact hunbound firing hrest e he hbound
    · intro effect heffect
      obtain hbefore | hlater := hcomplete effect heffect
      · exact hfirst.complete effect hbefore
      · exact .inr hlater

end Hook

end Retrieval
