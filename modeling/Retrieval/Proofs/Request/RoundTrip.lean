import Retrieval.Proofs.Json.Shape
import Retrieval.Request.Basic

namespace Retrieval

open Json

def Json.Number.isInt : Number → Bool
  | .int _ => true
  | .float _ => false

/-- The numbers of a request are integers. Those under names that it does not know are none of its own. -/
def Request.IsWhole (r : Request) : Prop :=
  ∀ n ∈ r.toJson.numbers, n.isInt = true

def Condition.declared (c : Condition) : Json :=
  .object [("field", .string c.field), ("cmp", .string c.comparator), ("val", c.value)]

def SortEntry.declared (s : SortEntry) : Json :=
  .object [("fieldName", .string s.field), ("direction", .int s.direction.toInt)]

/-- A request with its members as they are declared, as it is written without going through a map. -/
def Request.declared (r : Request) : Json :=
  .object [
    ("collection", .string r.collection),
    ("pk", .ofOption (fun n => .int n.toNat) r.pk),
    ("fieldset", .ofOption .string r.fieldSet),
    ("where", .array (r.conditions.map Condition.declared)),
    ("search", .ofDict (r.search.map fun _ term => .string term)),
    ("sort", .array (r.sort.map SortEntry.declared)),
    ("limit", .ofOption (fun n => .int n.toInt) r.limit),
    ("offset", .ofOption (fun n => .int n.toNat) r.offset)]

variable {room : Nat}

theorem uint64_range (n : UInt64) : Int64.minValue.toInt ≤ (n.toNat : Int) ∧ (n.toNat : Int) < UInt64.size := by
  have hn := n.toNat_lt
  have hmin : Int64.minValue.toInt = -2 ^ 63 := rfl
  simp only [hmin, UInt64.size]
  omega

theorem int64_range (n : Int64) : Int64.minValue.toInt ≤ n.toInt ∧ n.toInt < UInt64.size := by
  have hlow := n.le_toInt
  have hhigh := n.toInt_lt
  have hmin : Int64.minValue.toInt = -2 ^ 63 := rfl
  simp only [hmin, UInt64.size]
  omega

theorem int32_range (n : Int32) : Int64.minValue.toInt ≤ n.toInt ∧ n.toInt < UInt64.size := by
  have hlow := n.le_toInt
  have hhigh := n.toInt_lt
  have hmin : Int64.minValue.toInt = -2 ^ 63 := rfl
  simp only [hmin, UInt64.size]
  omega

theorem uint64Shape_readsAs (n : UInt64) : uint64Shape.ReadsAs room (.int n.toNat) n := by
  intro v' hr
  have hn := uint64_range n
  rw [uint64Shape, Shape.integer_readsAs hn ⟨Int.natCast_nonneg _, hn.2⟩ v' hr, Option.map_some,
    Int.toNat_natCast, UInt64.ofNat_toNat]

theorem int64Shape_readsAs (n : Int64) : int64Shape.ReadsAs room (.int n.toInt) n := by
  intro v' hr
  have hb : Int64.minValue.toInt ≤ n.toInt ∧ n.toInt < Int64.maxValue.toInt + 1 := ⟨n.le_toInt, n.toInt_lt⟩
  rw [int64Shape, Shape.integer_readsAs (int64_range n) hb v' hr, Option.map_some, Int64.ofInt_toInt]

theorem int32Shape_readsAs (n : Int32) : int32Shape.ReadsAs room (.int n.toInt) n := by
  intro v' hr
  have hb : Int32.minValue.toInt ≤ n.toInt ∧ n.toInt < Int32.maxValue.toInt + 1 := ⟨n.le_toInt, n.toInt_lt⟩
  rw [int32Shape, Shape.integer_readsAs (int32_range n) hb v' hr, Option.map_some, Int32.ofInt_toInt]

theorem Condition.shape_readsAs {c : Condition} (h : c.value.Fits Number.ReadsBack room) :
    Condition.shape.ReadsAs (room + 1) c.toJson c := by
  intro v' hr
  have hkeys : ["cmp", "field", "val"].Nodup ∧
      ∀ key ∈ ["cmp", "field", "val"], key ∈ ["field", "cmp", "val"] := by
    decide
  obtain ⟨f, hf, hholds⟩ := Shape.exists_fields room hr hkeys.1 hkeys.2
  have hfield := hholds.required "field" (by simp) (Shape.string_readsAs c.field)
  have hcomparator := hholds.required "cmp" (by simp) (Shape.string_readsAs c.comparator)
  have hvalue := hholds.required "val" (by simp) (Shape.value_readsAs h)
  simp [Condition.shape, hf, hfield, hcomparator, hvalue]

theorem Condition.fits_toJson {c : Condition} (h : c.value.Fits Number.ReadsBack room) :
    c.toJson.Fits Number.ReadsBack (room + 1) := by
  have hkeys : ["cmp", "field", "val"].Pairwise (· < ·) := by decide
  refine .object hkeys ?_
  simp only [List.forall_mem_cons]
  exact ⟨.string _, .string _, h, fun _ hm => (List.not_mem_nil hm).elim⟩

theorem Condition.reordered_declared {p : Number → Prop} {c : Condition} (h : c.value.Fits p room) :
    c.toJson.Reordered c.declared := by
  have hkeys : ["field", "cmp", "val"].Perm ["cmp", "field", "val"] := by decide
  refine .of_found hkeys (hkeys.nodup_iff.2 (by decide)) ?_
  simp only [List.forall_mem_cons]
  exact ⟨⟨_, by simp, .string _⟩, ⟨_, by simp, .string _⟩, ⟨_, by simp, h.reordered⟩,
    fun _ hm => (List.not_mem_nil hm).elim⟩

theorem Condition.fits_of_shape {t : Tree} {c : Condition} (h : Condition.shape (room + 1) t = some c) :
    c.value.Fits Number.IsDenoted room := by
  simp only [Condition.shape, Option.bind_eq_bind, Option.bind_eq_some_iff, Option.pure_def, Option.some.injEq] at h
  obtain ⟨f, hf, _, _, _, _, value, hvalue, rfl⟩ := h
  have hroom := Shape.fields_room hf
  obtain ⟨t', _, hvalue⟩ := Option.bind_eq_some_iff.1 hvalue
  obtain rfl : f.room = room := by omega
  exact fits_of_value? hvalue

theorem SortEntry.shape_readsAs (s : SortEntry) : SortEntry.shape.ReadsAs (room + 1) s.toJson s := by
  intro v' hr
  have hkeys : ["direction", "fieldName"].Nodup ∧
      ∀ key ∈ ["direction", "fieldName"], key ∈ ["fieldName", "direction"] := by
    decide
  obtain ⟨f, hf, hholds⟩ := Shape.exists_fields room hr hkeys.1 hkeys.2
  have hfield := hholds.required "fieldName" (by simp) (Shape.string_readsAs s.field)
  have hdirection := hholds.required "direction" (by simp) (int32Shape_readsAs s.direction)
  simp [SortEntry.shape, hf, hfield, hdirection]

theorem SortEntry.fits_toJson (s : SortEntry) : s.toJson.Fits Number.ReadsBack (room + 1) := by
  have hkeys : ["direction", "fieldName"].Pairwise (· < ·) := by decide
  refine .object hkeys ?_
  simp only [List.forall_mem_cons]
  exact ⟨.number (Number.readsBack_int (int32_range _)), .string _, fun _ hm => (List.not_mem_nil hm).elim⟩

theorem SortEntry.reordered_declared (s : SortEntry) : s.toJson.Reordered s.declared := by
  have hkeys : ["fieldName", "direction"].Perm ["direction", "fieldName"] := by decide
  refine .of_found hkeys (hkeys.nodup_iff.2 (by decide)) ?_
  simp only [List.forall_mem_cons]
  exact ⟨⟨_, by simp, reordered_int _⟩, ⟨_, by simp, .string _⟩, fun _ hm => (List.not_mem_nil hm).elim⟩

namespace Request

variable {r : Request}

/-- A request as it can be read: its searches stand in order, and the values that it compares with have room
in it. -/
structure Fits (p : Number → Prop) (room : Nat) (r : Request) : Prop where
  search : r.search.Ordered
  conditions : ∀ c ∈ r.conditions, c.value.Fits p room

theorem Fits.shape_readsAs (h : r.Fits Number.ReadsBack room) : shape.ReadsAs (room + 3) r.toJson r := by
  intro v' hr
  have hkeys : ["collection", "fieldset", "limit", "offset", "pk", "search", "sort", "where"].Nodup ∧
      ∀ key ∈ ["collection", "fieldset", "limit", "offset", "pk", "search", "sort", "where"],
        key ∈ ["collection", "pk", "fieldset", "where", "search", "sort", "limit", "offset"] := by
    decide
  obtain ⟨f, hf, hholds⟩ := Shape.exists_fields (room + 2) hr hkeys.1 hkeys.2
  have hcollection := hholds.required "collection" (by simp) (Shape.string_readsAs r.collection)
  have hpk := hholds.default "pk" none (by simp)
    (Shape.option_readsAs (fun _ => by simp [Json.int]) uint64Shape_readsAs r.pk)
  have hfieldSet := hholds.default "fieldset" none (by simp)
    (Shape.option_readsAs (fun _ => by simp) Shape.string_readsAs r.fieldSet)
  have hconditions := hholds.default "where" [] (by simp)
    (Shape.list_readsAs fun c hc => Condition.shape_readsAs (h.conditions c hc))
  have hsearch := hholds.default "search" .empty (by simp)
    (Shape.dict_readsAs h.search fun e _ => Shape.string_readsAs e.2)
  have hsort := hholds.default "sort" [] (by simp)
    (Shape.list_readsAs fun s (_ : s ∈ r.sort) => SortEntry.shape_readsAs s)
  have hlimit := hholds.default "limit" none (by simp)
    (Shape.option_readsAs (fun _ => by simp [Json.int]) int64Shape_readsAs r.limit)
  have hoffset := hholds.default "offset" none (by simp)
    (Shape.option_readsAs (fun _ => by simp [Json.int]) uint64Shape_readsAs r.offset)
  simp [Request.shape, hf, Shape.Fields.optional, hcollection, hpk, hfieldSet, hconditions, hsearch, hsort, hlimit,
    hoffset]

theorem Fits.toJson (h : r.Fits Number.ReadsBack room) : r.toJson.Fits Number.ReadsBack (room + 3) := by
  have hconditions : ∀ v ∈ r.conditions.map Condition.toJson, v.Fits Number.ReadsBack (room + 1) := by
    intro v hv
    obtain ⟨c, hc, rfl⟩ := List.mem_map.1 hv
    exact Condition.fits_toJson (h.conditions c hc)
  have hsort : ∀ v ∈ r.sort.map SortEntry.toJson, v.Fits Number.ReadsBack (room + 1) := by
    intro v hv
    obtain ⟨s, _, rfl⟩ := List.mem_map.1 hv
    exact s.fits_toJson
  have hkeys : ["collection", "fieldset", "limit", "offset", "pk", "search", "sort", "where"].Pairwise (· < ·) := by
    decide
  refine .object hkeys ?_
  simp only [List.forall_mem_cons]
  exact ⟨.string _, fits_ofOption (fun _ => .string _) _,
    fits_ofOption (fun n => .number (Number.readsBack_int (int64_range n))) _,
    fits_ofOption (fun n => .number (Number.readsBack_int (uint64_range n))) _,
    fits_ofOption (fun n => .number (Number.readsBack_int (uint64_range n))) _,
    fits_ofDict h.search fun _ => .string _, .array hsort, .array hconditions,
    fun _ hm => (List.not_mem_nil hm).elim⟩

theorem fits_of_shape {t : Tree} (h : shape (room + 3) t = some r) : r.Fits Number.IsDenoted room := by
  simp only [shape, Option.bind_eq_bind, Option.bind_eq_some_iff, Option.pure_def, Option.some.injEq] at h
  obtain ⟨f, hf, _, _, _, _, _, _, conditions, hconditions, search, hsearch, _, _, _, _, _, _, rfl⟩ := h
  have hroom := Shape.fields_room hf
  unfold Shape.Fields.default at hsearch hconditions
  constructor
  · split at hsearch
    · cases hsearch
      exact Dict.ordered_empty
    · exact Shape.ordered_dict hsearch
  · intro c hc
    split at hconditions
    · cases hconditions
      cases hc
    · obtain ⟨r', t', hr', hshape⟩ := Shape.mem_of_list hconditions hc
      obtain rfl : r' = room + 1 := by omega
      exact Condition.fits_of_shape hshape

theorem mem_numbers_toJson {c : Condition} (hc : c ∈ r.conditions) {n : Number} (hn : n ∈ c.value.numbers) :
    n ∈ r.toJson.numbers := by
  have hcondition : n ∈ c.toJson.numbers := mem_memberNumbers (m := ("val", c.value)) (by simp) hn
  have hconditions : n ∈ (Json.array (r.conditions.map Condition.toJson)).numbers :=
    mem_itemNumbers (List.mem_map_of_mem hc) hcondition
  exact mem_memberNumbers (m := ("where", .array (r.conditions.map Condition.toJson))) (by simp) hconditions

theorem Fits.reordered_declared (h : r.Fits Number.ReadsBack room) : r.toJson.Reordered r.declared := by
  have hkeys : ["collection", "pk", "fieldset", "where", "search", "sort", "limit", "offset"].Perm
      ["collection", "fieldset", "limit", "offset", "pk", "search", "sort", "where"] := by decide
  have hsearch : (Json.ofDict (r.search.map fun _ term => .string term)).Fits Number.ReadsBack (room + 1) :=
    fits_ofDict h.search fun _ => .string _
  have hsort : (Json.array (r.sort.map SortEntry.toJson)).Reordered (.array (r.sort.map SortEntry.declared)) := by
    refine .array ?_
    rw [List.forall₂_map_left_iff, List.forall₂_map_right_iff, List.forall₂_same]
    exact fun s _ => s.reordered_declared
  have hconditions : (Json.array (r.conditions.map Condition.toJson)).Reordered
      (.array (r.conditions.map Condition.declared)) := by
    refine .array ?_
    rw [List.forall₂_map_left_iff, List.forall₂_map_right_iff, List.forall₂_same]
    exact fun c hc => Condition.reordered_declared (h.conditions c hc)
  refine .of_found hkeys (hkeys.nodup_iff.2 (by decide)) ?_
  simp only [List.forall_mem_cons]
  exact ⟨⟨_, by simp, .string _⟩, ⟨_, by simp, reordered_ofOption (fun _ => .string _) _⟩,
    ⟨_, by simp, reordered_ofOption (fun _ => reordered_int _) _⟩,
    ⟨_, by simp, reordered_ofOption (fun _ => reordered_int _) _⟩,
    ⟨_, by simp, reordered_ofOption (fun _ => reordered_int _) _⟩,
    ⟨_, by simp, hsearch.reordered⟩, ⟨_, by simp, hsort⟩, ⟨_, by simp, hconditions⟩,
    fun _ hm => (List.not_mem_nil hm).elim⟩

/-- Whatever form a request was given in, if its numbers are integers it is read again from what is written
for it, which has all its members, and from the same with the members of its objects in any other order. -/
theorem ofText?_toJson {text : String} (h : ofText? text = some r) (hw : r.IsWhole) :
    (∃ members, r.toJson = .object members ∧ members.map (·.1) =
        ["collection", "fieldset", "limit", "offset", "pk", "search", "sort", "where"]) ∧
      ofText? r.toJson.text = some r ∧ ofText? r.declared.text = some r ∧
      ∀ v, r.toJson.Reordered v → ofText? v.text = some r := by
  obtain ⟨t, _, hread⟩ := Option.bind_eq_some_iff.1 h
  have hdenoted : r.Fits _ 124 := fits_of_shape hread
  have hfits : r.Fits Number.ReadsBack 124 := by
    refine ⟨hdenoted.search, fun c hc => (hdenoted.conditions c hc).imp fun n hn hnumeral => ?_⟩
    have hint := hw n (mem_numbers_toJson hc hn)
    cases n with
    | int n => exact Number.readsBack_int hnumeral.range
    | float x => cases hint
  have hreordered : ∀ v, r.toJson.Reordered v → ofText? v.text = some r := by
    intro v hv
    rw [ofText?, Shape.ofText?, Json.text, String.toList_ofList, hfits.toJson.ofChars?_chars hv, Option.bind_some]
    exact hfits.shape_readsAs v hv
  exact ⟨⟨_, rfl, rfl⟩, hreordered _ hfits.toJson.reordered, hreordered _ hfits.reordered_declared, hreordered⟩

def listedPosts : String :=
  "[\"post\",null,null,[[\"tags\",\"IN\",[\x7b\"b\":-2,\"a\":\"\\u00e9\"\x7d]]," ++
    "\x7b\"val\":null,\"cmp\":\"=\",\"n\":1.5,\"field\":\"id\"\x7d]]"

theorem ofText?_toJson_listedPosts : ∃ r, ofText? listedPosts = some r ∧ r.IsWhole ∧ r.conditions.length = 2 ∧
    (∃ members, r.toJson = .object members ∧ members.map (·.1) =
        ["collection", "fieldset", "limit", "offset", "pk", "search", "sort", "where"]) ∧
      ofText? r.toJson.text = some r ∧ ofText? r.declared.text = some r ∧
      ∀ v, r.toJson.Reordered v → ofText? v.text = some r := by
  obtain ⟨r, hr, h⟩ := (Option.any_eq_true _ _).1 (show (ofText? listedPosts).any (fun r =>
    r.toJson.numbers.all (·.isInt) && decide (r.conditions.length = 2)) = true by decide +kernel)
  obtain ⟨hwhole, hlength⟩ := Bool.and_eq_true_iff.1 h
  have hw : r.IsWhole := List.all_eq_true.1 hwhole
  exact ⟨r, hr, hw, of_decide_eq_true hlength, ofText?_toJson hr hw⟩

end Request

end Retrieval
