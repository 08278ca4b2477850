import Mathlib.Algebra.Group.Nat.Defs
import Retrieval.Proofs.Field.Canonical
import Retrieval.Proofs.Query.FirstFailure
import Retrieval.Proofs.Query.KeyFilter
import Retrieval.Proofs.Query.Naming
import Retrieval.Proofs.Query.Search

namespace Retrieval

open Sql

def Field.maxLength? : Field → Option Nat
  | .string maxLength | .text maxLength => maxLength
  | .enum _ | .int | .id | .ref _ | .float | .bool | .date => none

theorem Field.pattern_eq_ok {f : Field} (hf : f.isSearchable = true) {s : String} {l : Literal} :
    f.pattern (.string s) = .ok l ↔ fits f.maxLength? s = true ∧ l = .text s := by
  rw [eq_comm (b := Literal.text s)]
  cases f with
  | string maxLength | text maxLength =>
    cases hfits : fits maxLength s <;>
      simp [pattern, literal, present?, Json.isNull, Json.scalarText?, maxLength?, hfits]
  | enum choices => simp [pattern, maxLength?, fits]
  | _ => cases hf

theorem Field.literal_id_eq_ok {n : Nat} {l : Literal} :
    Field.id.literal (.int n) = .ok l ↔ n < 2 ^ 63 ∧ l = .integer n := by
  have hleast : Int64.minValue.toInt = -2 ^ 63 := by decide
  have hgreatest : Int64.maxValue.toInt = 2 ^ 63 - 1 := by decide
  have hfits : FitsInt64 n ↔ n < 2 ^ 63 := by
    rw [FitsInt64, hleast, hgreatest]
    omega
  by_cases hn : n < 2 ^ 63
  · have hpresent : Field.id.present? (.int n) = some (.integer n) := by
      simp [present?, wholeNumber?_int (hfits.2 hn)]
    rw [literal_of_present? rfl hpresent]
    constructor
    · intro h
      cases h
      exact ⟨hn, rfl⟩
    · rintro ⟨_, rfl⟩
      rfl
  · have hnone : wholeNumber? (.int n) = none := if_neg (mt hfits.1 hn)
    have hpresent : Field.id.present? (.int n) = none := by simp [present?, hnone]
    have hnull : (Json.int n).isNull = false := rfl
    have hrefused : Field.id.literal (.int n) = .error (.invalidValue Field.id.typeName (.int n)) := by
      simp [literal, hpresent, hnull]
    rw [hrefused]
    constructor
    · intro h
      cases h
    · rintro ⟨hkey, _⟩
      exact absurd hkey hn

theorem Field.fits_iff {maxLength : Option Nat} {s : String} :
    fits maxLength s = true ↔ ∀ n ∈ maxLength, s.length ≤ n := by
  cases maxLength <;> simp [fits]

namespace SelectedField

def asks (f : SelectedField) (word : String) : Expr :=
  .binary .like f.operand (.literal (Literal.text word).containing)

theorem contains_eq_ok {f : SelectedField} (hf : f.field.isSearchable = true) {word : String} {e : Expr} :
    f.contains (.string word) = .ok e ↔ Field.fits f.field.maxLength? word = true ∧ e = f.asks word := by
  constructor
  · intro h
    obtain ⟨l, hl, rfl⟩ := contains_ok h
    obtain ⟨hfits, rfl⟩ := (Field.pattern_eq_ok hf).1 hl
    exact ⟨hfits, rfl⟩
  · rintro ⟨hfits, rfl⟩
    simp [contains, Json.isNull, (Field.pattern_eq_ok hf).2 ⟨hfits, rfl⟩, blame, Except.map, asks]

end SelectedField

theorem Text.recordId?_digits {term : List Char} (h : IsDigits term) :
    recordId? term = if digitsValue term < 2 ^ 64 then some (UInt64.ofNat (digitsValue term)) else none := by
  have hall : term.all Char.isDigit = true := List.all_eq_true.2 h.2
  simp [recordId?, h.1, hall, UInt64.size]

theorem Text.words_digits {term : List Char} (h : IsDigits term) : words term = [term] := by
  apply words_eq_singleton h.1
  intro c hc
  simp [isAsciiAlphanumeric, Char.isAlphanum, h.2 c hc]

theorem Condition.predicate_key_eq_ok {p : Selection} {f : SelectedField} (hf : p.get? keyField = some f) {n : Int}
    {e : Expr} : Condition.predicate p ⟨keyField, "=", .int n⟩ = .ok e ↔
      ∃ l, f.field.literal (.int n) = .ok l ∧ e = .binary .eq f.operand (.literal l) := by
  constructor
  · intro h
    obtain ⟨f', l, hf', hl, he⟩ := Condition.predicate_key h
    rw [hf] at hf'
    cases hf'
    exact ⟨l, hl, he⟩
  · rintro ⟨l, hl, rfl⟩
    rw [Condition.predicate, Selection.lookup_eq_ok.2 hf]
    change (f.blame (f.field.literal (.int n))).map _ = _
    rw [hl]
    rfl

namespace Search

variable {c : Collection} {p : Selection} {term word : String} {e : Expr} {es : List Expr}

def asksAnyField (p : Selection) (word : String) : Expr :=
  .anyGroup (p.searchable.map (·.asks word))

theorem inAnyField_eq_ok : inAnyField p word = .ok e ↔
    (∀ f ∈ p.searchable, Field.fits f.field.maxLength? word = true) ∧ e = asksAnyField p word := by
  have hfields : ∀ es, p.searchable.mapM (·.contains (.string word)) = .ok es ↔
      (∀ f ∈ p.searchable, Field.fits f.field.maxLength? word = true) ∧ es = p.searchable.map (·.asks word) :=
    fun _ => mapM_eq_ok_iff_map fun f hf _ => SelectedField.contains_eq_ok (mem_searchable.1 hf).2.2
  rw [inAnyField, bind_eq_ok]
  constructor
  · rintro ⟨es, hes, he⟩
    obtain ⟨hfits, rfl⟩ := (hfields es).1 hes
    cases he
    exact ⟨hfits, rfl⟩
  · rintro ⟨hfits, rfl⟩
    exact ⟨_, (hfields _).2 ⟨hfits, rfl⟩, rfl⟩

theorem predicates_everywhere (hcolon : ':' ∉ term.toList) :
    predicates c p everywhere term = direct p everywhere term.toList := by
  have hroute : ∀ target rest, ¬ Redirects c term.toList target rest := by
    rintro target rest ⟨before, hterm, _, _⟩
    apply hcolon
    rw [hterm]
    simp
  simp only [predicates, route_of_none (redirect?_eq_none hroute)]

theorem predicates_everywhere_eq_ok (hn : Text.recordId? term.toList = none) (hcolon : ':' ∉ term.toList) :
    predicates c p everywhere term = .ok es ↔
      (∀ w ∈ (Text.words term.toList).map String.ofList, ∀ f ∈ p.searchable,
        Field.fits f.field.maxLength? w = true) ∧
        es = ((Text.words term.toList).map String.ofList).map (asksAnyField p) := by
  rw [predicates_everywhere hcolon, direct_everywhere hn]
  exact mapM_eq_ok_iff_map fun w _ e => inAnyField_eq_ok

/-- What a number asks for: the record with that key, or the number as a text, if it is too great for a key. -/
def asksNumber (aliasName : String) (p : Selection) (term : String) : Expr :=
  if Text.digitsValue term.toList < 2 ^ 63 then
    .binary .eq (.column (some aliasName) keyField) (.literal (.integer (Text.digitsValue term.toList)))
  else asksAnyField p term

/-- A number is looked up as a key, or as a text if it does not fit 64 bits. The numbers that fit them only
without a sign are looked up as keys that there cannot be. -/
theorem predicates_number_eq_ok {aliasName : String} {f : SelectedField} (hf : p.get? keyField = some f)
    (hid : f.field = .id) (ho : f.operand = .column (some aliasName) keyField)
    (hfree : ∀ f ∈ p.searchable, f.field.maxLength? = none) (hd : IsDigits term.toList) :
    predicates c p everywhere term = .ok es ↔
      ¬ (2 ^ 63 ≤ Text.digitsValue term.toList ∧ Text.digitsValue term.toList < 2 ^ 64) ∧
        es = [asksNumber aliasName p term] := by
  have hcolon : ':' ∉ term.toList := fun hc => absurd (hd.2 ':' hc) (by decide)
  generalize hn : Text.digitsValue term.toList = n
  have hnumber := Text.recordId?_digits hd
  rw [hn] at hnumber
  by_cases hsize : n < 2 ^ 64
  · rw [if_pos hsize] at hnumber
    have hvalue : (UInt64.ofNat n).toNat = n := UInt64.toNat_ofNat_of_lt hsize
    rw [predicates_everywhere hcolon]
    simp only [direct, if_true, hnumber, hvalue, bind_eq_ok, Condition.predicate_key_eq_ok hf, hid, ho,
      Field.literal_id_eq_ok, Except.ok.injEq, asksNumber, hn]
    constructor
    · rintro ⟨e, ⟨l, ⟨hkey, rfl⟩, rfl⟩, rfl⟩
      exact ⟨by omega, by rw [if_pos hkey]⟩
    · rintro ⟨hgap, rfl⟩
      have hkey : n < 2 ^ 63 := by omega
      rw [if_pos hkey]
      exact ⟨_, ⟨_, ⟨hkey, rfl⟩, rfl⟩, rfl⟩
  · rw [if_neg hsize] at hnumber
    have hkey : ¬ n < 2 ^ 63 := by omega
    rw [predicates_everywhere_eq_ok hnumber hcolon, Text.words_digits hd]
    simp only [List.map_singleton, List.mem_singleton, forall_eq, String.ofList_toList, asksNumber, hn, if_neg hkey]
    constructor
    · rintro ⟨_, rfl⟩
      exact ⟨by omega, rfl⟩
    · rintro ⟨_, rfl⟩
      refine ⟨?_, rfl⟩
      intro f hf
      rw [hfree f hf]
      rfl

end Search

/-- A request that asks for all records. -/
structure Request.Unfiltered (r : Request) : Prop where
  pk : r.pk = none
  conditions : r.conditions = []
  search : r.search = .empty

namespace Filter

variable {c : Collection} {p : Selection} {r : Request}

theorem exists_predicates_iff : (∃ out, predicates c p r = .ok out) ↔
    (∀ condition ∈ conditions r, ∃ e, condition.predicate p = .ok e) ∧
      ∀ entry ∈ r.search.entries, ∃ es, Search.predicates c p entry.1 entry.2 = .ok es := by
  rw [exists_predicates, entries, List.forall_mem_append, List.forall_mem_map, List.forall_mem_map]
  have hcondition : ∀ condition : Condition,
      (∃ es, (Entry.condition condition).predicates c p = .ok es) ↔ ∃ e, condition.predicate p = .ok e := by
    intro condition
    simp [Entry.predicates, map_eq_ok]
  simp only [hcondition]
  rfl

theorem predicates_withTerm (hr : r.Unfiltered) (key term : String) :
    predicates c p (r.withTerm key term) = tag 0 (Search.predicates c p key term) := by
  obtain ⟨hpk, hconditions, hsearch⟩ := hr
  have hall : conditions (r.withTerm key term) = [] := by
    simp [conditions, Request.withTerm, hpk, hconditions]
  have hentries : (r.withTerm key term).search.entries = [(key, term)] := by
    rw [Request.withTerm, hsearch]
    rfl
  rw [predicates, hall, hentries]
  cases hs : Search.predicates c p key term <;> simp [addConditions, addSearches, tag, hs, bind, Except.bind]

end Filter

namespace Query

variable {m : Model} {r : Request} {q : Query} {parts : Parts} {key term : String}

def filteredBy (q : Query) (predicates : List Expr) : Query :=
  { q with statement := { q.statement with filter := Expr.all predicates } }

theorem Parts.Make.ofRequest_withTerm (h : parts.Make m r q) {predicates : List Expr}
    (hp : Filter.predicates parts.collection parts.selection (r.withTerm key term) = .ok predicates) :
    ofRequest m (r.withTerm key term) = .ok (q.filteredBy predicates) := by
  have hmake : ({ parts with predicates := predicates } : Parts).Make m (r.withTerm key term)
      (q.filteredBy predicates) := by
    refine ⟨h.collection, h.members, h.selection, hp, h.order, h.page, ?_⟩
    rw [h.query]
    rfl
  exact hmake.ofRequest_eq_ok

theorem Parts.Make.exists_ofRequest_withTerm (h : parts.Make m r q) :
    (∃ q', ofRequest m (r.withTerm key term) = .ok q') ↔
      ∃ predicates, Filter.predicates parts.collection parts.selection (r.withTerm key term) = .ok predicates := by
  constructor
  · rintro ⟨q', h'⟩
    obtain ⟨parts', hparts'⟩ := ofRequest_ok h'
    obtain ⟨hcollection, _, hselection⟩ := h.selection_eq hparts' rfl rfl
    rw [← hcollection, ← hselection]
    exact ⟨parts'.predicates, hparts'.predicates⟩
  · rintro ⟨predicates, hp⟩
    exact ⟨_, h.ofRequest_withTerm hp⟩

theorem Parts.Make.exists_withTerm_iff (h : parts.Make m r q) (hnew : r.search.find? key = none) :
    (∃ q', ofRequest m (r.withTerm key term) = .ok q') ↔
      ∃ es, Search.predicates parts.collection parts.selection key term = .ok es := by
  obtain ⟨hconditions, hsearches⟩ := Filter.exists_predicates_iff.1 ⟨_, h.predicates⟩
  rw [h.exists_ofRequest_withTerm, Filter.exists_predicates_iff]
  constructor
  · rintro ⟨_, hall⟩
    exact hall (key, term) ((Dict.mem_insert hnew).2 (.inl rfl))
  · intro hes
    refine ⟨hconditions, ?_⟩
    intro entry hentry
    rcases (Dict.mem_insert hnew).1 hentry with rfl | hold
    · exact hes
    · exact hsearches entry hold

variable {c : Collection} {members : List Member} {g : JoinGraph} {p : Selection}

theorem ofRequest_selection (hc : m.collection r.collection = .ok c) (hm : c.fieldSet r.fieldSet = .ok members)
    (hs : Selection.build m (.new r.collection) members = (g, .ok p)) (h : ofRequest m r = .ok q) :
    ∃ parts : Parts, parts.Make m r q ∧ parts.collection = c ∧ parts.members = members ∧ parts.graph = g ∧
      parts.selection = p := by
  obtain ⟨parts, hparts, rfl, rfl⟩ := ofRequest_members hc hm h
  have hselection := hparts.selection
  rw [hs, Prod.mk.injEq, Except.ok.injEq] at hselection
  exact ⟨parts, hparts, rfl, rfl, hselection.1.symm, hselection.2.symm⟩

/-- Text that is no number and has no prefix can be searched for in all fields if each of its words fits each
searchable field. -/
theorem withText_iff (hc : m.collection r.collection = .ok c) (hm : c.fieldSet r.fieldSet = .ok members)
    (hs : Selection.build m (.new r.collection) members = (g, .ok p)) (h : ofRequest m r = .ok q)
    (hnew : r.search.find? Search.everywhere = none) (hdigits : ¬ IsDigits term.toList)
    (hcolon : ':' ∉ term.toList) :
    (∃ q', ofRequest m (r.withTerm Search.everywhere term) = .ok q') ↔
      ∀ f ∈ p.searchable, ∀ n ∈ f.field.maxLength?, ∀ w, Text.IsWord term.toList w → w.length ≤ n := by
  obtain ⟨parts, hparts, rfl, rfl, rfl, rfl⟩ := ofRequest_selection hc hm hs h
  have hnumber : Text.recordId? term.toList = none := by
    apply Search.recordId?_eq_none
    intro hterm
    by_contra hall
    exact hdigits ⟨hterm, by simpa using hall⟩
  rw [hparts.exists_withTerm_iff hnew]
  simp only [Search.predicates_everywhere_eq_ok hnumber hcolon, exists_and_left, exists_eq, and_true,
    List.forall_mem_map, Text.mem_words, Field.fits_iff, String.length_ofList]
  constructor
  · intro hall f hf n hn w hw
    exact hall w hw f hf n hn
  · intro hall w hw f hf n hn
    exact hall f hf n hn w hw

def shortNames : ModelDocument where
  collections := ⟨[("post", {
    fields := ⟨[("name", ⟨[("maxLength", .int 3), ("type", .string "string")]⟩)]⟩
    fieldSets := ⟨[]⟩
    computed := ⟨[]⟩
    searchPrefixes := ⟨[]⟩ })]⟩
  templates := ⟨[]⟩
  hooks := []

theorem withText_shortNames : ∃ m c members g p q q', Model.ofDocument .builtin shortNames = .ok m ∧
    m.collection "post" = .ok c ∧ c.fieldSet none = .ok members ∧
    Selection.build m (.new "post") members = (g, .ok p) ∧ ofRequest m (.ofCollection "post") = .ok q ∧
    ofRequest m ((Request.ofCollection "post").withTerm Search.everywhere "ab-cde!") = .ok q' ∧
    q'.sql = "SELECT p.name AS f0, p.id AS f1 FROM post p WHERE (p.name LIKE '%ab%') AND (p.name LIKE '%cde%')" := by
  obtain ⟨m, hl, h⟩ := exists_of_passes (show passes (fun m => passes (fun c => passes (fun members =>
    passes (fun p => passes (fun _ =>
        decide (∀ f ∈ p.searchable, ∀ n ∈ f.field.maxLength?, ∀ w ∈ Text.words "ab-cde!".toList,
          w.length ≤ n) &&
          passes (·.sql =
              "SELECT p.name AS f0, p.id AS f1 FROM post p WHERE (p.name LIKE '%ab%') AND (p.name LIKE '%cde%')")
            (ofRequest m ((Request.ofCollection "post").withTerm Search.everywhere "ab-cde!")))
      (ofRequest m (.ofCollection "post"))) (Selection.build m (.new "post") members).2)
    (c.fieldSet none)) (m.collection "post")) (Model.ofDocument .builtin shortNames) = true by decide +kernel)
  obtain ⟨c, hc, h⟩ := exists_of_passes h
  obtain ⟨members, hm, h⟩ := exists_of_passes h
  obtain ⟨p, hp, h⟩ := exists_of_passes h
  obtain ⟨q, hq, h⟩ := exists_of_passes h
  obtain ⟨hfits, hsql⟩ := Bool.and_eq_true_iff.1 h
  have hdigits : ¬ IsDigits "ab-cde!".toList := fun hd => absurd (hd.2 'a' (by decide +kernel)) (by decide)
  obtain ⟨q', hq'⟩ := (withText_iff hc hm (Prod.ext rfl hp) hq rfl hdigits (by decide +kernel)).2 (by
    simpa only [Text.mem_words] using of_decide_eq_true hfits)
  rw [hq'] at hsql
  exact ⟨m, c, members, _, p, q, q', hl, hc, hm, Prod.ext rfl hp, hq, hq', of_decide_eq_true hsql⟩

/-- A word that is too long for any name does not just match no post: the request fails. -/
theorem not_withText_shortNames : ∃ m q e, Model.ofDocument .builtin shortNames = .ok m ∧
    ofRequest m (.ofCollection "post") = .ok q ∧
    (Request.ofCollection "post").search.find? Search.everywhere = none ∧
    ¬ IsDigits "abcdef".toList ∧ ':' ∉ "abcdef".toList ∧
    ofRequest m ((Request.ofCollection "post").withTerm Search.everywhere "abcdef") = .error e ∧
    e.message = "building condition 0: Invalid value for 'name': cannot use \"abcdef\" as string" := by
  obtain ⟨m, hl, h⟩ := exists_of_passes (show passes (fun m =>
    passes (fun _ => fails
        (·.message = "building condition 0: Invalid value for 'name': cannot use \"abcdef\" as string")
        (ofRequest m ((Request.ofCollection "post").withTerm Search.everywhere "abcdef")))
      (ofRequest m (.ofCollection "post"))) (Model.ofDocument .builtin shortNames) = true by decide +kernel)
  obtain ⟨q, hq, h⟩ := exists_of_passes h
  obtain ⟨e, he, hmessage⟩ := exists_of_fails h
  have hdigits : ¬ IsDigits "abcdef".toList := fun hd => absurd (hd.2 'a' (by decide +kernel)) (by decide)
  exact ⟨m, q, e, hl, hq, rfl, hdigits, by decide +kernel, he, of_decide_eq_true hmessage⟩

/-- The key that a selection shows as a plain path is the one of the base table. -/
theorem Parts.Make.get?_key (h : parts.Make m r q)
    (hplain : ∃ path, parts.members.find? (·.path == keyField) = some (.plain path)) :
    ∃ f, parts.selection.get? keyField = some f ∧ parts.collection.fields.find? keyField = some f.field ∧
      f.operand = .column (some (JoinGraph.new r.collection).base.aliasName) keyField := by
  obtain ⟨path, hfind⟩ := hplain
  have htest := List.find?_some hfind
  have hpath : (Member.plain path).path = keyField := beq_iff_eq.1 htest
  have hmember : keyField ∈ parts.members.map (·.path) :=
    List.mem_map.2 ⟨_, List.mem_of_find?_eq_some hfind, hpath⟩
  obtain ⟨f, hf⟩ := Option.isSome_iff_exists.1 (h.isSome_get?_iff.2 hmember)
  obtain ⟨x, hx, hshows⟩ := Selection.get?_build h.shows hf
  rw [hfind] at hx
  cases hx
  obtain ⟨ho, hfield⟩ := operand_key hpath hshows
  rw [h.grows.base_eq] at ho hfield
  obtain ⟨_, _, c, hc, hkey⟩ := JoinGraph.fieldOf_ok hfield
  have hcollection := hc.symm.trans h.collection
  cases hcollection
  exact ⟨f, hf, hkey, ho⟩

/-- A search for a number in all fields asks for the record with that key, or for the number as a text if it
does not fit 64 bits; it does not compile for the numbers that fit them only without a sign. -/
theorem withNumber_iff (hc : m.collection r.collection = .ok c) (hm : c.fieldSet r.fieldSet = .ok members)
    (hs : Selection.build m (.new r.collection) members = (g, .ok p)) (h : ofRequest m r = .ok q)
    (hid : c.fields.find? keyField = some .id)
    (hplain : ∃ path, members.find? (·.path == keyField) = some (.plain path))
    (hfree : ∀ f ∈ p.searchable, f.field.maxLength? = none) (hr : r.Unfiltered) (hd : IsDigits term.toList) :
    ((∃ q', ofRequest m (r.withTerm Search.everywhere term) = .ok q') ↔
        ¬ (2 ^ 63 ≤ Text.digitsValue term.toList ∧ Text.digitsValue term.toList < 2 ^ 64)) ∧
      ∀ q', ofRequest m (r.withTerm Search.everywhere term) = .ok q' →
        q' = q.filteredBy [Search.asksNumber (JoinGraph.new r.collection).base.aliasName p term] := by
  obtain ⟨parts, hparts, rfl, rfl, rfl, rfl⟩ := ofRequest_selection hc hm hs h
  obtain ⟨f, hf, hfield, ho⟩ := hparts.get?_key hplain
  rw [hid, Option.some.injEq] at hfield
  have hfilter : ∀ predicates,
      Filter.predicates parts.collection parts.selection (r.withTerm Search.everywhere term) = .ok predicates ↔
        ¬ (2 ^ 63 ≤ Text.digitsValue term.toList ∧ Text.digitsValue term.toList < 2 ^ 64) ∧
          predicates = [Search.asksNumber (JoinGraph.new r.collection).base.aliasName parts.selection term] := by
    intro predicates
    rw [Filter.predicates_withTerm hr, Filter.tag_eq_ok, Search.predicates_number_eq_ok hf hfield.symm ho hfree hd]
  constructor
  · simp only [hparts.exists_ofRequest_withTerm, hfilter, exists_and_left, exists_eq, and_true]
  · intro q' h'
    obtain ⟨predicates, hpredicates⟩ := hparts.exists_ofRequest_withTerm.1 ⟨q', h'⟩
    have hq := hparts.ofRequest_withTerm hpredicates
    rw [(hfilter predicates).1 hpredicates |>.2, h', Except.ok.injEq] at hq
    exact hq

theorem withNumber_namedPosts : ∃ m c members g p q q', Model.ofDocument .builtin namedPosts = .ok m ∧
    m.collection "post" = .ok c ∧ c.fieldSet none = .ok members ∧
    Selection.build m (.new "post") members = (g, .ok p) ∧ ofRequest m (.ofCollection "post") = .ok q ∧
    c.fields.find? keyField = some .id ∧ (∃ path, members.find? (·.path == keyField) = some (.plain path)) ∧
    (∀ f ∈ p.searchable, f.field.maxLength? = none) ∧
    ofRequest m ((Request.ofCollection "post").withTerm Search.everywhere "0009223372036854775807") = .ok q' ∧
    q' = q.filteredBy [.binary .eq (.column (some "p") "id") (.literal (.integer 9223372036854775807))] := by
  obtain ⟨m, hl, h⟩ := exists_of_passes (show passes (fun m => passes (fun c => passes (fun members =>
    passes (fun p => passes (fun _ =>
        (members.find? (·.path == keyField)).any (·.isPlain) &&
          decide (c.fields.find? keyField = some .id ∧ ∀ f ∈ p.searchable, f.field.maxLength? = none))
      (ofRequest m (.ofCollection "post"))) (Selection.build m (.new "post") members).2)
    (c.fieldSet none)) (m.collection "post")) (Model.ofDocument .builtin namedPosts) = true by decide +kernel)
  obtain ⟨c, hc, h⟩ := exists_of_passes h
  obtain ⟨members, hm, h⟩ := exists_of_passes h
  obtain ⟨p, hp, h⟩ := exists_of_passes h
  obtain ⟨q, hq, h⟩ := exists_of_passes h
  obtain ⟨hkey, h⟩ := Bool.and_eq_true_iff.1 h
  obtain ⟨hid, hfree⟩ := of_decide_eq_true h
  have hplain := Member.exists_plain hkey
  have hdigits : IsDigits "0009223372036854775807".toList :=
    ⟨by decide +kernel, List.all_eq_true.1 (by decide +kernel)⟩
  have hvalue : Text.digitsValue "0009223372036854775807".toList = 9223372036854775807 := by decide +kernel
  obtain ⟨hcompiles, hquery⟩ :=
    withNumber_iff hc hm (Prod.ext rfl hp) hq hid hplain hfree ⟨rfl, rfl, rfl⟩ hdigits
  obtain ⟨q', hq'⟩ := hcompiles.2 (by rw [hvalue]; decide)
  have hfilter := hquery q' hq'
  rw [Search.asksNumber, hvalue, if_pos (by decide)] at hfilter
  exact ⟨m, c, members, _, p, q, q', hl, hc, hm, Prod.ext rfl hp, hq, hid, hplain, hfree, hq', hfilter⟩

/-- The first number that is too great for a key is not looked for as a text. -/
theorem not_withNumber_namedPosts : ∃ m c members g p q e, Model.ofDocument .builtin namedPosts = .ok m ∧
    m.collection "post" = .ok c ∧ c.fieldSet none = .ok members ∧
    Selection.build m (.new "post") members = (g, .ok p) ∧ ofRequest m (.ofCollection "post") = .ok q ∧
    c.fields.find? keyField = some .id ∧ (∃ path, members.find? (·.path == keyField) = some (.plain path)) ∧
    (∀ f ∈ p.searchable, f.field.maxLength? = none) ∧ IsDigits "9223372036854775808".toList ∧
    ofRequest m ((Request.ofCollection "post").withTerm Search.everywhere "9223372036854775808") = .error e ∧
    e.message = "building condition 0: Invalid value for 'id': cannot use 9223372036854775808 as id" := by
  obtain ⟨m, hl, h⟩ := exists_of_passes (show passes (fun m => passes (fun c => passes (fun members =>
    passes (fun p => passes (fun _ =>
        (members.find? (·.path == keyField)).any (·.isPlain) &&
          decide (c.fields.find? keyField = some .id ∧ ∀ f ∈ p.searchable, f.field.maxLength? = none) &&
          fails (·.message = "building condition 0: Invalid value for 'id': cannot use 9223372036854775808 as id")
            (ofRequest m ((Request.ofCollection "post").withTerm Search.everywhere "9223372036854775808")))
      (ofRequest m (.ofCollection "post"))) (Selection.build m (.new "post") members).2)
    (c.fieldSet none)) (m.collection "post")) (Model.ofDocument .builtin namedPosts) = true by decide +kernel)
  obtain ⟨c, hc, h⟩ := exists_of_passes h
  obtain ⟨members, hm, h⟩ := exists_of_passes h
  obtain ⟨p, hp, h⟩ := exists_of_passes h
  obtain ⟨q, hq, h⟩ := exists_of_passes h
  simp only [Bool.and_eq_true, decide_eq_true_eq] at h
  obtain ⟨⟨hkey, hid, hfree⟩, hfails⟩ := h
  obtain ⟨e, he, hmessage⟩ := exists_of_fails hfails
  have hplain := Member.exists_plain hkey
  exact ⟨m, c, members, _, p, q, e, hl, hc, hm, Prod.ext rfl hp, hq, hid, hplain, hfree,
    ⟨by decide +kernel, List.all_eq_true.1 (by decide +kernel)⟩, he, of_decide_eq_true hmessage⟩

end Query

end Retrieval
