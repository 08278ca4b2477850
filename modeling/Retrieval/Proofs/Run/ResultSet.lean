import Retrieval.Proofs.Dict
import Retrieval.Proofs.Query.Scope
import Retrieval.Proofs.Run.Basic
import Retrieval.Run.Stored

namespace Retrieval

/-- Each value of a stored row can be read as the type of its column. -/
def Stored.Decode (columns : List ResultColumn) (stored : List Stored) : Prop :=
  List.Forall₂ (fun column v => (Stored.read column.scan v).isOk = true) columns stored

instance (columns : List ResultColumn) (stored : List Stored) : Decidable (Stored.Decode columns stored) :=
  inferInstanceAs (Decidable (List.Forall₂ _ _ _))

/-- A row has what is read from a stored row, each value under the path of its column, and no other. -/
structure Row.Shows (columns : List ResultColumn) (stored : List Stored) (row : Row) : Prop where
  size : row.size = columns.length
  value : ∀ (i : Nat) (column : ResultColumn) (v : Stored), columns[i]? = some column → stored[i]? = some v →
    ∃ json, v.read column.scan = .ok json ∧ row.find? column.path = some json

theorem toLower_of_isDigit {c : Char} (h : c.isDigit = true) : c.toLower = c := by
  unfold Char.toLower
  split
  · rename_i hupper
    have hdigit := Bool.and_eq_true_iff.1 h
    have hle : c.val ≤ 57 := of_decide_eq_true hdigit.2
    exact absurd (UInt32.le_trans hupper.1 hle) (by decide)
  · rfl

namespace ResultSet

variable {result : ResultSet} {columns : List ResultColumn} {stored : List Stored} {sql : String}

theorem map_toLower_label (n : Nat) :
    (Selection.label n).toList.map Char.toLower = (Selection.label n).toList := by
  rw [Selection.label, String.toList_ofList, List.map_cons]
  refine congrArg₂ List.cons (by decide) ?_
  conv_rhs => rw [← List.map_id (Decimal.digitChars n)]
  apply List.map_congr_left
  intro c hc
  exact toLower_of_isDigit ((isDigits_digitChars n).2 c hc)

/-- The labels of two columns differ by more than the case of their letters. -/
theorem sameName_label {i j : Nat} : sameName (Selection.label i) (Selection.label j) = true ↔ i = j := by
  rw [sameName, map_toLower_label, map_toLower_label, beq_iff_eq]
  constructor
  · intro h
    have hdigits := congrArg (fun cs => Text.digitsValue cs.tail) h
    simpa [Selection.label] using hdigits
  · rintro rfl
    rfl

theorem position?_label {n i : Nat} (h : result.names = (List.range n).map Selection.label) (hi : i < n) :
    result.position? (Selection.label i) = some i := by
  rw [position?, h, List.findIdx?_eq_some_iff_getElem]
  refine ⟨by simpa using hi, ?_, ?_⟩
  · simp [sameName_label]
  · intro j hj
    simp [sameName_label, Nat.ne_of_gt hj]

/-- A result has the names of the columns, and the labels of the columns count their positions. -/
structure Fits (result : ResultSet) (columns : List ResultColumn) : Prop where
  names : result.names = columns.map (·.label)
  labels : columns.map (·.label) = (List.range columns.length).map Selection.label

theorem Fits.readColumn_eq_ok (h : result.Fits columns) {i : Nat} {column : ResultColumn} {v : Stored}
    (hc : columns[i]? = some column) (hv : stored[i]? = some v) {json : Json} :
    result.readColumn sql stored column = .ok json ↔ v.read column.scan = .ok json := by
  obtain ⟨hi, _⟩ := List.getElem?_eq_some_iff.1 hc
  have hlabel := congrArg (·[i]?) h.labels
  simp only [List.getElem?_map, hc, List.getElem?_range hi, Option.map_some, Option.some.injEq] at hlabel
  have hposition := position?_label (h.names.trans h.labels) hi
  rw [← hlabel] at hposition
  rw [readColumn, hposition, Option.bind_some, hv]
  cases hread : v.read column.scan <;> simp [hread]

theorem Fits.exists_values (h : result.Fits columns) (hd : Stored.Decode columns stored) :
    ∃ values, columns.mapM (result.readColumn sql stored) = .ok values := by
  simp only [mapM_eq_ok]
  rw [exists_forall₂]
  intro column hcolumn
  obtain ⟨i, hi⟩ := List.getElem?_of_mem hcolumn
  obtain ⟨v, hv, hok⟩ := exists_getElem?_right hd hi
  cases hread : v.read column.scan with
  | error problem =>
    rw [hread] at hok
    cases hok
  | ok json => exact ⟨json, (h.readColumn_eq_ok hi hv).2 hread⟩

theorem Fits.keyRow_shows (h : result.Fits columns) (hpaths : (columns.map (·.path)).Nodup)
    {values : List Json} (hvalues : columns.mapM (result.readColumn sql stored) = .ok values) :
    Row.Shows columns stored (Run.keyRow columns values) := by
  have hread := mapM_eq_ok.1 hvalues
  have hlength : columns.length = values.length := hread.length_eq
  have hkeys : ((columns.map (·.path)).zip values).map (·.1) = columns.map (·.path) := by
    apply List.map_fst_zip
    simp [hlength]
  rw [← hkeys] at hpaths
  refine ⟨?size, ?value⟩
  case size =>
    rw [Run.keyRow, Dict.size_ofList hpaths]
    simp [hlength]
  case value =>
    intro i column v hcolumn hv
    obtain ⟨json, hjson, hok⟩ := exists_getElem?_right hread hcolumn
    have hentry : ((columns.map (·.path)).zip values)[i]? = some (column.path, json) := by
      rw [List.getElem?_zip_eq_some]
      exact ⟨by simp [hcolumn], hjson⟩
    have hfound := Dict.find?_ofList hpaths (List.mem_of_getElem? hentry)
    exact ⟨json, (h.readColumn_eq_ok hcolumn hv).1 hok, hfound⟩

theorem Fits.read_shows (h : result.Fits columns) (hpaths : (columns.map (·.path)).Nodup)
    (hd : ∀ stored ∈ result.rows, Stored.Decode columns stored) :
    ∃ found, result.read sql columns = .ok found ∧
      List.Forall₂ (Row.Shows columns) result.rows (found.map (Run.keyRow columns)) := by
  have hrows : ∃ found, result.read sql columns = .ok found := by
    have hvalues : ∀ stored ∈ result.rows, ∃ values,
        columns.mapM (result.readColumn sql stored) = .ok values :=
      fun stored hstored => h.exists_values (hd stored hstored)
    obtain ⟨found, hfound⟩ := exists_forall₂.2 hvalues
    exact ⟨found, mapM_eq_ok.2 hfound⟩
  obtain ⟨found, hfound⟩ := hrows
  refine ⟨found, hfound, ?_⟩
  rw [List.forall₂_map_right_iff]
  exact (mapM_eq_ok.1 hfound).imp fun stored values hvalues => h.keyRow_shows hpaths hvalues

end ResultSet

namespace Query

variable {m : Model} {r : Request} {q : Query}

theorem fits_of_ofRequest (h : ofRequest m r = .ok q) {result : ResultSet}
    (hnames : q.statement.items.map (·.label) = result.names.map some) :
    result.Fits q.columns ∧ (q.columns.map (·.path)).Nodup := by
  obtain ⟨parts, hparts⟩ := ofRequest_ok h
  rw [hparts.items_labels, ← hparts.columns_labels] at hnames
  have hlength : q.columns.length = parts.selection.fields.length := by
    rw [hparts.query, Selection.output, List.length_map]
  refine ⟨⟨?names, ?labels⟩, ?paths⟩
  case names => exact (List.map_injective_iff.2 (fun _ _ => Option.some.inj) hnames).symm
  case labels =>
    rw [hparts.columns_labels, hlength]
    exact Selection.build_labels hparts.selection
  case paths =>
    rw [hparts.columns_paths]
    exact hparts.nodup_paths

end Query

/-- Of a result that fits a query, the rows show what was stored, whatever the query selects. -/
theorem Model.records_shows {m : Model} {r : Request} {q : Query} {w : World} {history : History}
    {result : ResultSet} (h : Query.ofRequest m r = .ok q)
    (hnames : q.statement.items.map (·.label) = result.names.map some)
    (hd : ∀ stored ∈ result.rows, Stored.Decode q.columns stored) (hconnect : w.connect history = .ok ())
    (hquery : w.query history q.sql q.columns = result.read q.sql q.columns) :
    ∃ rows, (Run.after w history (m.records r)).1 = .ok rows ∧
      List.Forall₂ (Row.Shows q.columns) result.rows rows := by
  obtain ⟨hfits, hpaths⟩ := Query.fits_of_ofRequest h hnames
  obtain ⟨found, hfound, hshows⟩ := hfits.read_shows hpaths hd
  have hrun : Run.after w history (m.records r) =
      (.ok (found.map (Run.keyRow q.columns)), history ++ [.statement q.sql q.columns]) := by
    rw [records, h, Run.after_bind_ok (Run.after_ofQuery_ok q), Run.after_rows_ok hconnect, hquery, hfound]
    rfl
  exact ⟨_, congrArg Prod.fst hrun, hshows⟩

def ResultSet.listed : ResultSet where
  names := ["f0", "f1", "f2"]
  rows := [[.text "FIRST", .text "Ada", .integer 1], [.text "SECOND", .null, .integer 2]]

theorem Model.records_shows_listed : ∃ m q rows, ofDocument .builtin .blog = .ok m ∧
    Query.ofRequest m (.ofFieldSet "post" "list") = .ok q ∧
    (Run.after (.ofResult .listed) [] (m.records (.ofFieldSet "post" "list"))).1 = .ok rows ∧
    List.Forall₂ (Row.Shows q.columns) ResultSet.listed.rows rows := by
  obtain ⟨m, hl, h⟩ := exists_of_passes (show passes (fun m => passes (fun q =>
      decide (q.statement.items.map (·.label) = ResultSet.listed.names.map some) &&
        decide (∀ stored ∈ ResultSet.listed.rows, Stored.Decode q.columns stored))
      (Query.ofRequest m (.ofFieldSet "post" "list"))) (ofDocument .builtin .blog) = true by decide +kernel)
  obtain ⟨q, hq, h⟩ := exists_of_passes h
  simp only [Bool.and_eq_true, decide_eq_true_eq] at h
  have hconnect : (World.ofResult .listed).connect [] = .ok () := rfl
  obtain ⟨rows, hrows, hshows⟩ := records_shows hq h.1 h.2 hconnect rfl
  exact ⟨m, q, rows, hl, hq, hrows, hshows⟩

end Retrieval
