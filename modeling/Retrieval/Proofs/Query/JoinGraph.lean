import Mathlib.Logic.Relation
import Retrieval.Proofs.Model.Path
import Retrieval.Proofs.Number.Layout
import Retrieval.Query.JoinGraph

namespace Retrieval.JoinGraph

variable {m : Model} {raw : JoinGraph → String → Prop} {g g' : JoinGraph}

theorem target_ok {collection hop table : String} (h : target m collection hop = .ok table) :
    ∃ c field name c', m.collection collection = .ok c ∧ c.fields.find? hop = some field ∧
      field.references = some name ∧ m.collection name = .ok c' ∧ c'.table = table := by
  unfold target at h
  cases hc : m.collection collection with
  | error e =>
    rw [hc] at h
    cases h
  | ok c =>
    simp only [hc] at h
    split at h
    · cases h
    · rename_i field hf
      split at h
      · cases h
      · rename_i name hr
        cases hc' : m.collection name with
        | error e =>
          rw [hc'] at h
          cases h
        | ok c' =>
          rw [hc'] at h
          cases h
          exact ⟨c, field, name, c', rfl, hf, hr, hc', rfl⟩

/-- The table that a sequence of hops leads to, if it has been walked. -/
def tableAt? (g : JoinGraph) (hops : List String) : Option QueryTable :=
  if hops = [] then some g.base else g.reached? (".".intercalate hops)

def addHop (g : JoinGraph) (walked : List String) (current : QueryTable) (hop collection : String) :
    JoinGraph :=
  { g with
    steps := g.steps ++ [.hop (".".intercalate (walked ++ [hop]))
      ⟨collection, g.nextAlias collection⟩ current.aliasName hop] }

/-- A graph grows by a table that no path has reached yet, or by a join written in the model. Which
joins of the second kind are expected is up to `raw`. -/
inductive Step (m : Model) (raw : JoinGraph → String → Prop) : JoinGraph → JoinGraph → Prop
  | hop {g : JoinGraph} {walked : List String} {current : QueryTable} {hop collection : String}
      (hd : DotFree (walked ++ [hop])) (hc : g.tableAt? walked = some current)
      (hn : g.tableAt? (walked ++ [hop]) = none)
      (ht : target m current.collection hop = .ok collection) :
      Step m raw g (g.addHop walked current hop collection)
  | raw {g : JoinGraph} {sql : String} (hr : raw g sql) : Step m raw g (g.addRaw sql)

abbrev Grows (m : Model) (raw : JoinGraph → String → Prop) : JoinGraph → JoinGraph → Prop :=
  Relation.ReflTransGen (Step m raw)

@[simp] theorem tableAt?_nil (g : JoinGraph) : g.tableAt? [] = some g.base := rfl

@[simp] theorem tableAt?_append_singleton (g : JoinGraph) (walked : List String) (hop : String) :
    g.tableAt? (walked ++ [hop]) = g.reached? (".".intercalate (walked ++ [hop])) := by
  simp [tableAt?]

@[simp] theorem base_addHop (walked : List String) (current : QueryTable) (hop collection : String) :
    (g.addHop walked current hop collection).base = g.base := rfl

@[simp] theorem base_addRaw (sql : String) : (g.addRaw sql).base = g.base := rfl

@[simp] theorem tableAt?_addRaw (sql : String) (hops : List String) :
    (g.addRaw sql).tableAt? hops = g.tableAt? hops := by
  simp [tableAt?, reached?, addRaw, List.findSome?_append]

theorem reached?_addHop (walked : List String) (current : QueryTable) (hop collection key : String) :
    (g.addHop walked current hop collection).reached? key =
      (g.reached? key).or (if ".".intercalate (walked ++ [hop]) = key then
        some ⟨collection, g.nextAlias collection⟩ else none) := by
  simp only [reached?, addHop, List.findSome?_append, List.findSome?_cons, List.findSome?_nil]
  split <;> simp_all

theorem tableAt?_addHop {walked hops : List String} {current : QueryTable} {hop collection : String}
    (hd : DotFree (walked ++ [hop])) (hn : g.tableAt? (walked ++ [hop]) = none) (hh : DotFree hops) :
    (g.addHop walked current hop collection).tableAt? hops =
      if hops = walked ++ [hop] then some ⟨collection, g.nextAlias collection⟩
      else g.tableAt? hops := by
  by_cases he : hops = walked ++ [hop]
  · subst he
    rw [tableAt?_append_singleton] at hn
    simp [reached?_addHop, hn]
  · rw [if_neg he]
    by_cases hnil : hops = []
    · subst hnil
      rfl
    · have hkey : ".".intercalate (walked ++ [hop]) ≠ ".".intercalate hops := by
        intro hkey
        exact he (intercalate_dot_inj hd hh (by simp) hnil hkey).symm
      simp [tableAt?, hnil, reached?_addHop, hkey]

theorem joins_addHop (walked : List String) (current : QueryTable) (hop collection : String) :
    (g.addHop walked current hop collection).joins = g.joins ++
      [.left ⟨collection, some (g.nextAlias collection)⟩
        (.binary .eq (.column (some (g.nextAlias collection)) keyField)
          (.column (some current.aliasName) hop))] := by
  simp [joins, addHop, JoinStep.join]

theorem joins_addRaw (sql : String) : (g.addRaw sql).joins = g.joins ++ [.raw sql] := by
  simp [joins, addRaw, JoinStep.join]

@[simp] theorem tables_addHop (walked : List String) (current : QueryTable) (hop collection : String) :
    (g.addHop walked current hop collection).tables =
      g.tables ++ [⟨collection, g.nextAlias collection⟩] := by
  simp [tables, addHop, JoinStep.table?]

@[simp] theorem tables_addRaw (sql : String) : (g.addRaw sql).tables = g.tables := by
  simp [tables, addRaw, JoinStep.table?]

theorem mem_tables_of_tableAt? {hops : List String} {table : QueryTable}
    (h : g.tableAt? hops = some table) : table ∈ g.base :: g.tables := by
  unfold tableAt? at h
  split at h
  · cases h
    exact List.mem_cons_self
  · obtain ⟨step, hs, ht⟩ := List.exists_of_findSome?_eq_some h
    refine List.mem_cons_of_mem _ (List.mem_filterMap.2 ⟨step, hs, ?_⟩)
    cases step with
    | hop key t source hop =>
      simp only [Option.ite_none_right_eq_some] at ht
      exact ht.2
    | raw sql => cases ht

theorem Step.base_eq (h : Step m raw g g') : g'.base = g.base := by
  cases h <;> rfl

theorem Grows.base_eq (h : Grows m raw g g') : g'.base = g.base := by
  induction h with
  | refl => rfl
  | tail _ hs ih => rw [hs.base_eq, ih]

theorem Step.tableAt?_mono (h : Step m raw g g') {hops : List String} {table : QueryTable}
    (ht : g.tableAt? hops = some table) : g'.tableAt? hops = some table := by
  cases h with
  | hop hd hc hn htarget =>
    unfold tableAt? at ht ⊢
    split
    · rename_i he
      rw [if_pos he] at ht
      exact ht
    · rename_i he
      rw [if_neg he] at ht
      rw [reached?_addHop, ht]
      rfl
  | raw hr => rw [tableAt?_addRaw, ht]

/-- What a path has led to, it leads to ever after. -/
theorem Grows.tableAt?_mono (h : Grows m raw g g') {hops : List String} {table : QueryTable}
    (ht : g.tableAt? hops = some table) : g'.tableAt? hops = some table := by
  induction h with
  | refl => exact ht
  | tail _ hs ih => exact hs.tableAt?_mono ih

def aliasNumber (table : QueryTable) : Nat :=
  Text.digitsValue table.aliasName.toList.tail

theorem aliasNumber_next (collection : String) :
    aliasNumber ⟨collection, g.nextAlias collection⟩ = g.tables.length + 1 := by
  simp [aliasNumber, nextAlias]

/-- The tables of a query are numbered in order, so no two aliases are the same. -/
theorem Grows.aliasNumbers {base : String} (h : Grows m raw (.new base) g) :
    (g.base :: g.tables).map aliasNumber = List.range (g.tables.length + 1) := by
  induction h with
  | refl => simp [new, tables, aliasNumber, Text.digitsValue]
  | tail _ hs ih =>
    cases hs with
    | hop hd hc hn ht =>
      rw [List.map_cons] at ih
      rw [base_addHop, tables_addHop, List.length_append, List.length_singleton, List.range_succ, ← ih]
      simp [aliasNumber_next]
    | raw hr => simpa using ih

theorem Grows.nextAlias_notMem {base : String} (h : Grows m raw (.new base) g) (collection : String) :
    g.nextAlias collection ∉ (g.base :: g.tables).map (·.aliasName) := by
  intro hmem
  obtain ⟨table, ht, ha⟩ := List.mem_map.1 hmem
  have hnumber : aliasNumber table = g.tables.length + 1 := by
    rw [← aliasNumber_next collection, aliasNumber, aliasNumber, ha]
  have hr := List.mem_map_of_mem (f := aliasNumber) ht
  rw [h.aliasNumbers, hnumber, List.mem_range] at hr
  omega

theorem isLower_toLower {c : Char} (h : c.isAlpha = true) : c.toLower.isLower = true := by
  unfold Char.toLower
  split
  · rename_i hc
    have hleast : 65 ≤ c.val.toNat := UInt32.le_iff_toNat_le.1 hc.1
    have hgreatest : c.val.toNat ≤ 90 := UInt32.le_iff_toNat_le.1 hc.2
    have hval : (c.val + 32).toNat = c.val.toNat + 32 := by
      rw [UInt32.toNat_add]
      exact Nat.mod_eq_of_lt (show c.val.toNat + 32 < _ by omega)
    have hlower : 97 ≤ c.val + 32 ∧ c.val + 32 ≤ 122 := by
      rw [UInt32.le_iff_toNat_le, UInt32.le_iff_toNat_le, hval]
      exact ⟨Nat.add_le_add_right hleast 32, Nat.add_le_add_right hgreatest 32⟩
    exact Bool.and_eq_true_iff.2 ⟨decide_eq_true hlower.1, decide_eq_true hlower.2⟩
  · rename_i hc
    exact (Bool.or_eq_true_iff.1 h).resolve_left fun hupper => hc (of_decide_eq_true hupper)

theorem isLower_letter (collection : String) : (letter collection).isLower = true := by
  unfold letter
  split
  · decide
  · split
    · rename_i hc
      exact isLower_toLower hc
    · decide

theorem isAlphanum_letter (collection : String) : (letter collection).isAlphanum = true := by
  have halpha : (letter collection).isAlpha = true := Bool.or_eq_true_iff.2 (.inr (isLower_letter collection))
  rw [Char.isAlphanum, halpha, Bool.true_or]

theorem isAlphanum_of_mem_digitChars {n : Nat} {c : Char} (h : c ∈ Decimal.digitChars n) :
    c.isAlphanum = true := by
  rw [Char.isAlphanum, (isDigits_digitChars n).2 c h, Bool.or_true]

theorem isAlphanum_nextAlias {collection : String} {c : Char}
    (h : c ∈ (g.nextAlias collection).toList) : c.isAlphanum = true := by
  rw [nextAlias, String.toList_ofList] at h
  rcases List.mem_cons.1 h with rfl | h
  · exact isAlphanum_letter collection
  · exact isAlphanum_of_mem_digitChars h

theorem Grows.isAlphanum_alias {base : String} (h : Grows m raw (.new base) g) {table : QueryTable}
    (ht : table ∈ g.base :: g.tables) {c : Char} (hc : c ∈ table.aliasName.toList) :
    c.isAlphanum = true := by
  induction h with
  | refl =>
    rw [List.mem_singleton.1 ht, new, String.toList_ofList, List.mem_singleton] at hc
    rw [hc]
    exact isAlphanum_letter base
  | @tail g _ _ hs ih =>
    cases hs with
    | hop hd hcurrent hn htarget =>
      rw [base_addHop, tables_addHop, ← List.cons_append] at ht
      rcases List.mem_append.1 ht with hold | hnew
      · exact ih hold
      · rw [List.mem_singleton.1 hnew] at hc
        exact isAlphanum_nextAlias hc
    | raw hr =>
      rw [base_addRaw, tables_addRaw] at ht
      exact ih ht

theorem Grows.imp {raw' : JoinGraph → String → Prop} (h : Grows m raw g g')
    (hr : ∀ g sql, raw g sql → raw' g sql) : Grows m raw' g g' := by
  refine Relation.ReflTransGen.mono ?_ _ _ h
  intro a b hs
  cases hs with
  | hop hd hc hn ht => exact .hop hd hc hn ht
  | raw hs => exact .raw (hr _ _ hs)

theorem step_grows {walked : List String} {current : QueryTable} {hop : String}
    (hd : DotFree (walked ++ [hop])) (hc : g.tableAt? walked = some current) :
    Grows m raw g (g.step m current (".".intercalate (walked ++ [hop])) hop).1 := by
  unfold step
  cases hr : g.reached? (".".intercalate (walked ++ [hop])) with
  | some table => exact .refl
  | none =>
    simp only [joinHop]
    cases ht : target m current.collection hop with
    | error e => exact .refl
    | ok collection =>
      exact .single (.hop hd hc (by rw [tableAt?_append_singleton, hr]) ht)

theorem step_ok {walked : List String} {current table : QueryTable} {hop : String}
    (h : g.step m current (".".intercalate (walked ++ [hop])) hop = (g', .ok table)) :
    g'.tableAt? (walked ++ [hop]) = some table := by
  rw [tableAt?_append_singleton]
  unfold step at h
  cases hr : g.reached? (".".intercalate (walked ++ [hop])) with
  | some found =>
    rw [hr] at h
    cases h
    exact hr
  | none =>
    rw [hr] at h
    simp only [joinHop] at h
    cases ht : target m current.collection hop with
    | error e =>
      rw [ht] at h
      cases h
    | ok collection =>
      rw [ht] at h
      cases h
      change (g.addHop walked current hop collection).reached? _ = _
      simp [reached?_addHop, hr]

theorem reachFrom_grows {walked hops : List String} {current : QueryTable}
    (hd : DotFree (walked ++ hops)) (hc : g.tableAt? walked = some current) :
    Grows m raw g (g.reachFrom m walked current hops).1 := by
  induction hops generalizing g walked current with
  | nil => exact .refl
  | cons hop rest ih =>
    have hd' : DotFree (walked ++ [hop] ++ rest) := by simpa using hd
    have hw : DotFree (walked ++ [hop]) := fun name hn => hd' name (List.mem_append_left _ hn)
    have hs : Grows m raw g (g.step m current (".".intercalate (walked ++ [hop])) hop).1 :=
      step_grows hw hc
    rw [reachFrom]
    cases hstep : g.step m current (".".intercalate (walked ++ [hop])) hop with
    | mk g₁ result =>
      rw [hstep] at hs
      cases result with
      | error e => simpa [hstep] using hs
      | ok table => simpa [hstep] using hs.trans (ih hd' (step_ok hstep))

theorem reachFrom_ok {walked hops : List String} {current table : QueryTable}
    (hc : g.tableAt? walked = some current)
    (h : g.reachFrom m walked current hops = (g', .ok table)) :
    g'.tableAt? (walked ++ hops) = some table := by
  induction hops generalizing g walked current with
  | nil =>
    cases h
    simpa using hc
  | cons hop rest ih =>
    rw [reachFrom] at h
    cases hstep : g.step m current (".".intercalate (walked ++ [hop])) hop with
    | mk g₁ result =>
      cases result with
      | error e => simp [hstep] at h
      | ok next =>
        simp only [hstep] at h
        have := ih (step_ok hstep) h
        simpa using this

/-- Whether or not a path resolves, it only adds tables. -/
theorem columnAt_grows (path : Path) : Grows m raw g (g.columnAt m path).1 := by
  have hr : Grows m raw g (g.reachFrom m [] g.base path.hops).1 :=
    reachFrom_grows path.dotFree_hops rfl
  unfold columnAt reach
  cases h : g.reachFrom m [] g.base path.hops with
  | mk g₁ result =>
    rw [h] at hr
    cases result <;> exact hr

theorem fieldOf_ok {table : QueryTable} {name : String} {column : ColumnRef}
    (h : fieldOf m table name = .ok column) :
    column.table = table ∧ column.column = name ∧
      ∃ c, m.collection table.collection = .ok c ∧ c.fields.find? name = some column.field := by
  unfold fieldOf at h
  cases hc : m.collection table.collection with
  | error e =>
    rw [hc] at h
    cases h
  | ok c =>
    simp only [hc] at h
    split at h
    · cases h
    · rename_i field hf
      cases h
      exact ⟨rfl, rfl, c, rfl, hf⟩

theorem columnAt_ok {path : Path} {column : ColumnRef}
    (h : g.columnAt m path = (g', .ok column)) :
    g'.tableAt? path.hops = some column.table ∧ fieldOf m column.table path.terminal = .ok column := by
  unfold columnAt reach at h
  cases hr : g.reachFrom m [] g.base path.hops with
  | mk g₁ result =>
    rw [hr] at h
    cases result with
    | error e => cases h
    | ok table =>
      simp only [Prod.mk.injEq] at h
      obtain ⟨rfl, hf⟩ := h
      have ht : g₁.tableAt? ([] ++ path.hops) = some table := reachFrom_ok rfl hr
      rw [(fieldOf_ok hf).1]
      exact ⟨ht, hf⟩

end Retrieval.JoinGraph
