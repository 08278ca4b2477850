import Retrieval.Proofs.Dict
import Retrieval.Proofs.Field.Canonical
import Retrieval.Proofs.Query.MemberOrder
import Retrieval.Proofs.Query.Scope
import Retrieval.Proofs.Run.Basic

namespace Retrieval

/-- A path that a label leaves out: a key, the key of another record, or a position. -/
def IsInternal (path : String) : Prop :=
  path = "id" ∨ path = "sortIndex" ∨ ".id".toList <:+ path.toList

/-- The paths and texts that the label of a row is made of: all scalars of the row that are not left out, in the
order of the columns. -/
structure Row.Labelled (columns : List ResultColumn) (row : Row) (parts : List (String × String)) : Prop where
  order : (parts.map (·.1)).Sublist (columns.map (·.path))
  scalars : ∀ path text, (path, text) ∈ parts ↔
    ¬ IsInternal path ∧ ∃ v, row.find? path = some v ∧ v.Scalar text

def Request.forLabel (collection : String) (pk : UInt64) : Request :=
  (Request.ofFieldSet collection identityFieldSet).withKey pk

namespace Model

variable {m : Model} {w : World} {history : History} {collection : String} {pk : UInt64} {q : Query}
  {columns : List ResultColumn} {row : Row}

theorem isInternal_iff {path : String} : isInternal path = true ↔ IsInternal path := by
  simp [isInternal, IsInternal, keyField, or_assoc]

def labelParts (columns : List ResultColumn) (row : Row) : List (String × String) :=
  (columns.filter (!isInternal ·.path)).filterMap fun c =>
    ((row.find? c.path).bind Json.scalarText?).map (c.path, ·)

theorem labelOf_eq (columns : List ResultColumn) (row : Row) :
    labelOf columns row = ", ".intercalate ((labelParts columns row).map (·.2)) := by
  simp [labelOf, labelParts, List.map_filterMap, Function.comp_def]

theorem mem_labelParts {path text : String} : (path, text) ∈ labelParts columns row ↔
    path ∈ columns.map (·.path) ∧ ¬ IsInternal path ∧
      ∃ v, row.find? path = some v ∧ v.Scalar text := by
  simp only [labelParts, List.mem_filterMap, List.mem_filter, List.mem_map, Option.map_eq_some_iff,
    Option.bind_eq_some_iff, Json.scalarText?_eq_some, Prod.mk.injEq, Bool.not_eq_true',
    ← isInternal_iff, Bool.not_eq_true]
  constructor
  · rintro ⟨c, ⟨hc, hpath⟩, text, ⟨v, hv, htext⟩, rfl, rfl⟩
    exact ⟨⟨c, hc, rfl⟩, hpath, v, hv, htext⟩
  · rintro ⟨⟨c, hc, rfl⟩, hpath, v, hv, htext⟩
    exact ⟨c, ⟨hc, hpath⟩, text, ⟨v, hv, htext⟩, rfl, rfl⟩

theorem labelParts_cons (c : ResultColumn) (columns : List ResultColumn) (row : Row) :
    labelParts (c :: columns) row = labelParts columns row ∨
      ∃ text, labelParts (c :: columns) row = (c.path, text) :: labelParts columns row := by
  simp only [labelParts, List.filter_cons]
  split
  · rw [List.filterMap_cons]
    cases (row.find? c.path).bind Json.scalarText? with
    | none => exact .inl rfl
    | some text => exact .inr ⟨text, rfl⟩
  · exact .inl rfl

theorem labelParts_sublist (columns : List ResultColumn) (row : Row) :
    ((labelParts columns row).map (·.1)).Sublist (columns.map (·.path)) := by
  induction columns with
  | nil => exact List.Sublist.slnil
  | cons c columns ih =>
    obtain h | ⟨text, h⟩ := labelParts_cons c columns row
    · rw [h]
      exact ih.cons c.path
    · rw [h]
      exact ih.cons_cons c.path

theorem mem_paths_of_find?_keyRow {values : List Json} {path : String} {v : Json}
    (h : (Run.keyRow columns values).find? path = some v) : path ∈ columns.map (·.path) :=
  (List.of_mem_zip (Dict.mem_of_mem_ofList (Dict.mem_of_find? h))).1

theorem labelled_keyRow (columns : List ResultColumn) (values : List Json) :
    Row.Labelled columns (Run.keyRow columns values) (labelParts columns (Run.keyRow columns values)) where
  order := labelParts_sublist _ _
  scalars := by
    intro path text
    rw [mem_labelParts, and_iff_right_of_imp]
    rintro ⟨_, v, hv, _⟩
    exact mem_paths_of_find?_keyRow hv

theorem after_records_error {r : Request} {e : Query.Error} (h : Query.ofRequest m r = .error e) :
    Run.after w history (m.records r) = (.error (.compile e), history) := by
  rw [records, h]
  rfl

theorem after_label_error {e : Query.Error} (w : World) (history : History)
    (h : Query.ofRequest m (.forLabel collection pk) = .error e) :
    Run.after w history (m.label collection pk) = (.error (.compile e), history) ∧
      Run.after w history (m.record collection identityFieldSet pk) = (.error (.compile e), history) := by
  constructor
  · rw [Request.forLabel] at h
    simp only [label, h]
    rfl
  · exact Run.after_bind_error (after_records_error h) _

/-- The label of a record is made of the record, if the request for it is compiled. -/
theorem label_eq (h : Query.ofRequest m (.forLabel collection pk) = .ok q) :
    m.label collection pk = m.record collection identityFieldSet pk >>= fun row =>
      pure (labelOf q.columns row) := by
  rw [Request.forLabel] at h
  simp only [label, record, records, h, Run.ofQuery, pure_bind, bind_assoc]

theorem after_label (w : World) (history : History) (h : Query.ofRequest m (.forLabel collection pk) = .ok q) :
    Run.after w history (m.label collection pk) =
      ((Run.after w history (m.record collection identityFieldSet pk)).1.map (labelOf q.columns),
        (Run.after w history (m.record collection identityFieldSet pk)).2) := by
  rw [label_eq h]
  exact Run.after_map (Prod.eta _).symm _

theorem exists_of_after_firstRow {found : List Row} {history' : History}
    (h : Run.after w history (firstRow collection pk found) = (.ok row, history')) : row ∈ found := by
  cases found with
  | nil => cases h
  | cons first rest =>
    cases h
    exact List.mem_cons_self

theorem record_eq {fieldSet : String}
    (h : Query.ofRequest m ((Request.ofFieldSet collection fieldSet).withKey pk) = .ok q) :
    m.record collection fieldSet pk = Run.rows q.sql q.columns >>= firstRow collection pk := by
  simp only [record, records, h, Run.ofQuery, pure_bind]

theorem after_record_sent {fieldSet : String}
    (h : Query.ofRequest m ((Request.ofFieldSet collection fieldSet).withKey pk) = .ok q)
    (hconnect : w.connect history = .ok ()) :
    (Run.after w history (m.record collection fieldSet pk)).2 = history ++ [.statement q.sql q.columns] := by
  rw [record_eq h]
  have hrows := Run.after_rows_ok hconnect q.sql q.columns
  cases hquery : w.query history q.sql q.columns with
  | error e =>
    rw [hquery] at hrows
    rw [Run.after_bind_error hrows]
  | ok found =>
    rw [hquery] at hrows
    rw [Run.after_bind_ok hrows]
    cases found <;> rfl

theorem exists_keyRow {fieldSet : String} {history' : History}
    (h : Query.ofRequest m ((Request.ofFieldSet collection fieldSet).withKey pk) = .ok q)
    (hr : Run.after w history (m.record collection fieldSet pk) = (.ok row, history')) :
    ∃ values, row = Run.keyRow q.columns values := by
  rw [record_eq h] at hr
  cases hconnect : w.connect history with
  | error e =>
    rw [Run.after_bind_error (Run.after_rows_error hconnect _ _)] at hr
    cases hr
  | ok =>
    have hrows := Run.after_rows_ok hconnect q.sql q.columns
    cases hquery : w.query history q.sql q.columns with
    | error e =>
      rw [hquery] at hrows
      rw [Run.after_bind_error hrows] at hr
      cases hr
    | ok found =>
      rw [hquery] at hrows
      rw [Run.after_bind_ok hrows] at hr
      obtain ⟨values, _, rfl⟩ := List.mem_map.1 (exists_of_after_firstRow hr)
      exact ⟨values, rfl⟩

/-- A label beside the record that it is the label of. Both are asked for with the same statements, the one of the
compiled request, and both fail or neither does. -/
structure Labels (m : Model) (w : World) (history : History) (collection : String) (pk : UInt64) : Prop where
  sent : (Run.after w history (m.label collection pk)).2 =
    (Run.after w history (m.record collection identityFieldSet pk)).2
  asks : ∀ q, Query.ofRequest m (.forLabel collection pk) = .ok q → w.connect history = .ok () →
    (Run.after w history (m.label collection pk)).2 = history ++ [.statement q.sql q.columns]
  fails : ∀ e, (Run.after w history (m.label collection pk)).1 = .error e ↔
    (Run.after w history (m.record collection identityFieldSet pk)).1 = .error e
  shows : ∀ row, (Run.after w history (m.record collection identityFieldSet pk)).1 = .ok row →
    ∃ c members q parts, m.collection collection = .ok c ∧ c.fieldSet (some identityFieldSet) = .ok members ∧
      Query.ofRequest m (.forLabel collection pk) = .ok q ∧
      q.columns.map (·.path) = (members.map Member.path).eraseDups ∧ Row.Labelled q.columns row parts ∧
      (Run.after w history (m.label collection pk)).1 = .ok (", ".intercalate (parts.map (·.2)))

theorem labels_record (m : Model) (w : World) (history : History) (collection : String) (pk : UInt64) :
    m.Labels w history collection pk := by
  cases h : Query.ofRequest m (.forLabel collection pk) with
  | error e =>
    obtain ⟨hlabel, hrecord⟩ := after_label_error w history h
    refine ⟨?sent, ?asks, ?fails, ?shows⟩
    case sent => rw [hlabel, hrecord]
    case asks =>
      intro q hq
      rw [h] at hq
      cases hq
    case fails =>
      intro e
      rw [hlabel, hrecord]
      simp
    case shows =>
      intro row hrow
      rw [hrecord] at hrow
      cases hrow
  | ok q =>
    have hlabel := after_label w history h
    refine ⟨?sent, ?asks, ?fails, ?shows⟩
    case sent => rw [hlabel]
    case asks =>
      intro q' hq' hconnect
      rw [h] at hq'
      cases hq'
      rw [hlabel]
      exact after_record_sent h hconnect
    case fails =>
      intro e
      rw [hlabel, map_eq_error]
    case shows =>
      intro row hrow
      obtain ⟨values, rfl⟩ := exists_keyRow h (Prod.ext hrow rfl)
      obtain ⟨parts, hparts⟩ := Query.ofRequest_ok h
      refine ⟨parts.collection, parts.members, q, _, hparts.collection, hparts.members, h, ?_,
        labelled_keyRow q.columns values, ?_⟩
      · rw [hparts.columns_paths]
        exact Selection.build_paths hparts.selection
      · rw [hlabel, hrow, ← labelOf_eq]
        rfl

end Model

end Retrieval
