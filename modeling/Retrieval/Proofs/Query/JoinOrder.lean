import Mathlib.Data.List.Infix
import Retrieval.Proofs.Query.PathMeaning

namespace Retrieval

theorem eraseDups_append_singleton {α : Type} [BEq α] [LawfulBEq α] (l : List α) (a : α) :
    (l ++ [a]).eraseDups = if a ∈ l then l.eraseDups else l.eraseDups ++ [a] := by
  rw [List.eraseDups_append]
  by_cases ha : a ∈ l
  · simp [List.removeAll, ha]
  · simp [List.removeAll, ha, List.eraseDups_cons]

/-- The join of a table that a path was walked to, and not one that is written in the model. -/
def Sql.Join.isGenerated : Sql.Join → Bool
  | .left _ _ => true
  | .raw _ => false

namespace JoinGraph

variable {m : Model} {base : String} {g : JoinGraph} {order seen : List (List String)} {walked hops : List String}

inductive Call where
  | path (path : Path)
  | raw (sql : String)

def call (m : Model) (g : JoinGraph) : Call → JoinGraph
  | .path path => (g.columnAt m path).1
  | .raw sql => g.addRaw sql

/-- The beginnings of a sequence of hops, as far as it leads somewhere. -/
def walks (m : Model) (base : String) (hops : List String) : List (List String) :=
  hops.inits.tail.filter fun walked => (destination m base walked).isOk

def Call.walks (m : Model) (base : String) : Call → List (List String)
  | .path p => JoinGraph.walks m base p.hops
  | .raw _ => []

/-- The table that a sequence of hops leads to, if tables are joined in the given order. -/
def tableOf (m : Model) (base : String) (order : List (List String)) (hops : List String) : QueryTable :=
  if hops = [] then (new base).base
  else
    let collection := (destination m base hops).toOption.getD ""
    ⟨collection, String.ofList (letter collection :: Decimal.digitChars (order.idxOf hops + 1))⟩

def stepTo (m : Model) (base : String) (order : List (List String)) (hops : List String) : JoinStep :=
  .hop (".".intercalate hops) (tableOf m base order hops) (tableOf m base order hops.dropLast).aliasName
    (hops.getLast?.getD "")

/-- Sequences of hops in an order in which they can be walked: each leads somewhere, and stands behind its
beginnings. -/
structure Walkable (m : Model) (base : String) (order : List (List String)) : Prop where
  nodup : order.Nodup
  dotFree : ∀ hops ∈ order, hops ≠ [] ∧ DotFree hops
  leads : ∀ hops ∈ order, ∃ collection, destination m base hops = .ok collection
  closed : ∀ hops ∈ order, ∀ walked, walked <+: hops → walked ≠ [] → walked ∈ order
  ordered : order.Pairwise fun earlier later => ¬ later <+: earlier

/-- The generated tables of a graph are those of the hops in `order`. -/
structure Laid (m : Model) (base : String) (order : List (List String)) (g : JoinGraph) : Prop
    extends Walkable m base order where
  grows : Grows m (fun _ _ => True) (new base) g
  steps : g.steps.filter (·.table?.isSome) = order.map (stepTo m base order)

theorem walkable_nil (m : Model) (base : String) : Walkable m base [] where
  nodup := .nil
  dotFree := by simp
  leads := by simp
  closed := by simp
  ordered := .nil

theorem Walkable.append (h : Walkable m base order) {hop collection : String} (hd : DotFree (walked ++ [hop]))
    (hw : walked = [] ∨ walked ∈ order) (hnew : walked ++ [hop] ∉ order)
    (ht : destination m base (walked ++ [hop]) = .ok collection) :
    Walkable m base (order ++ [walked ++ [hop]]) where
  nodup := by
    rw [List.nodup_append_comm]
    simpa using ⟨hnew, h.nodup⟩
  dotFree := by
    intro hops hh
    rcases List.mem_append.1 hh with hh | hh
    · exact h.dotFree hops hh
    · rw [List.mem_singleton.1 hh]
      exact ⟨by simp, hd⟩
  leads := by
    intro hops hh
    rcases List.mem_append.1 hh with hh | hh
    · exact h.leads hops hh
    · rw [List.mem_singleton.1 hh]
      exact ⟨collection, ht⟩
  closed := by
    intro hops hh before hp hne
    rcases List.mem_append.1 hh with hh | hh
    · exact List.mem_append_left _ (h.closed hops hh before hp hne)
    · -- a beginning of the new hops is all of them, or one of the hops before the last
      rw [List.mem_singleton.1 hh, List.prefix_concat_iff] at hp
      rcases hp with rfl | hp
      · simp
      · rcases hw with rfl | hw
        · exact absurd (List.prefix_nil.1 hp) hne
        · exact List.mem_append_left _ (h.closed walked hw before hp hne)
  ordered := by
    refine List.pairwise_append.2 ⟨h.ordered, List.pairwise_singleton .., ?_⟩
    intro earlier hearlier later hlater hp
    rw [List.mem_singleton.1 hlater] at hp
    exact hnew (h.closed earlier hearlier _ hp (by simp))

theorem tableOf_eq {collection : String} (hne : hops ≠ []) (h : destination m base hops = .ok collection) :
    tableOf m base order hops =
      ⟨collection, String.ofList (letter collection :: Decimal.digitChars (order.idxOf hops + 1))⟩ := by
  simp [tableOf, hne, h, Except.toOption]

/-- What is joined later has no part in the alias of a table. -/
theorem tableOf_append (more : List (List String)) (h : hops = [] ∨ hops ∈ order) :
    tableOf m base (order ++ more) hops = tableOf m base order hops := by
  by_cases hnil : hops = []
  · simp [tableOf, hnil]
  · have hmem : hops ∈ order := h.resolve_left hnil
    simp [tableOf, hnil, List.idxOf_append_of_mem hmem]

theorem Laid.base_eq (h : Laid m base order g) : g.base = (new base).base :=
  h.grows.base_eq

theorem Walkable.dropLast_mem (h : Walkable m base order) (hh : hops ∈ order) :
    hops.dropLast = [] ∨ hops.dropLast ∈ order := by
  by_cases hnil : hops.dropLast = []
  · exact .inl hnil
  · exact .inr (h.closed hops hh _ (List.dropLast_prefix hops) hnil)

theorem Walkable.stepTo_append (h : Walkable m base order) (more : List (List String)) (hh : hops ∈ order) :
    stepTo m base (order ++ more) hops = stepTo m base order hops := by
  rw [stepTo, stepTo, tableOf_append more (.inr hh), tableOf_append more (h.dropLast_mem hh)]

theorem Laid.tables_eq (h : Laid m base order g) : g.tables = order.map (tableOf m base order) := by
  have htables : g.tables = (g.steps.filter (·.table?.isSome)).filterMap JoinStep.table? := by
    rw [tables, List.filterMap_filter]
    apply List.filterMap_congr
    intro step _
    cases step <;> rfl
  rw [htables, h.steps, List.filterMap_map]
  exact congrFun (List.filterMap_eq_map' (f := tableOf m base order)) order

theorem findSome?_stepTo {l : List (List String)} (hl : ∀ walked ∈ l, walked ≠ [] ∧ DotFree walked)
    (hne : hops ≠ []) (hd : DotFree hops) :
    (l.map (stepTo m base order)).findSome? (fun
        | .hop key table _ _ => if key = ".".intercalate hops then some table else none
        | .raw _ => none) =
      if hops ∈ l then some (tableOf m base order hops) else none := by
  induction l with
  | nil => rfl
  | cons first rest ih =>
    obtain ⟨hfirst, hrest⟩ := List.forall_mem_cons.1 hl
    rw [List.map_cons, List.findSome?_cons, ih hrest]
    by_cases he : hops = first
    · subst he
      simp [stepTo]
    · have hkey : ".".intercalate first ≠ ".".intercalate hops := by
        intro hkey
        exact he (intercalate_dot_inj hfirst.2 hd hfirst.1 hne hkey).symm
      simp [stepTo, hkey, he]

theorem Laid.reached?_eq (h : Laid m base order g) (hne : hops ≠ []) (hd : DotFree hops) :
    g.reached? (".".intercalate hops) = if hops ∈ order then some (tableOf m base order hops) else none := by
  rw [← findSome?_stepTo h.dotFree hne hd, ← h.steps, reached?]
  generalize g.steps = steps
  induction steps with
  | nil => rfl
  | cons step rest ih =>
    cases step with
    | hop key table source hop =>
      simp only [List.filter_cons, JoinStep.table?, Option.isSome_some, if_true, List.findSome?_cons, ih]
    | raw sql =>
      simpa [JoinStep.table?] using ih

theorem Laid.tableAt?_eq (h : Laid m base order g) (hd : DotFree hops) :
    g.tableAt? hops = if hops = [] ∨ hops ∈ order then some (tableOf m base order hops) else none := by
  by_cases hnil : hops = []
  · rw [hnil, tableAt?_nil, h.base_eq]
    simp [tableOf]
  · rw [tableAt?, if_neg hnil, h.reached?_eq hnil hd]
    simp only [hnil, false_or]

theorem Walkable.destination_eq (h : Walkable m base order) (hw : walked = [] ∨ walked ∈ order) :
    destination m base walked = .ok (tableOf m base order walked).collection := by
  by_cases hnil : walked = []
  · simp [hnil, tableOf, new, destination]
    rfl
  · obtain ⟨collection, hcollection⟩ := h.leads walked (hw.resolve_left hnil)
    rw [tableOf_eq hnil hcollection, hcollection]

theorem Walkable.target_eq (h : Walkable m base order) (hw : walked = [] ∨ walked ∈ order) (hop : String) :
    target m (tableOf m base order walked).collection hop = destination m base (walked ++ [hop]) := by
  rw [destination_append (h.destination_eq hw), destination_singleton]

theorem laid_new (m : Model) (base : String) : Laid m base [] (new base) where
  toWalkable := walkable_nil m base
  grows := .refl
  steps := rfl

theorem Laid.addRaw (h : Laid m base order g) (sql : String) : Laid m base order (g.addRaw sql) where
  toWalkable := h.toWalkable
  grows := h.grows.tail (.raw trivial)
  steps := by simpa [JoinGraph.addRaw, JoinStep.table?] using h.steps

theorem Laid.tableOf_next (h : Laid m base order g) {collection : String} (hne : hops ≠ []) (hnew : hops ∉ order)
    (ht : destination m base hops = .ok collection) :
    tableOf m base (order ++ [hops]) hops = ⟨collection, g.nextAlias collection⟩ := by
  have htables : g.tables.length = order.length := by rw [h.tables_eq, List.length_map]
  rw [tableOf_eq hne ht, List.idxOf_append_of_notMem hnew, nextAlias, htables]
  simp

theorem Laid.addHop (h : Laid m base order g) {hop collection : String} (hd : DotFree (walked ++ [hop]))
    (hw : walked = [] ∨ walked ∈ order) (hnew : walked ++ [hop] ∉ order)
    (ht : destination m base (walked ++ [hop]) = .ok collection) :
    Laid m base (order ++ [walked ++ [hop]]) (g.addHop walked (tableOf m base order walked) hop collection) where
  toWalkable := h.append hd hw hnew ht
  grows := by
    have hwalked : DotFree walked := fun name hn => hd name (List.mem_append_left _ hn)
    have hc : g.tableAt? walked = some (tableOf m base order walked) := by rw [h.tableAt?_eq hwalked, if_pos hw]
    have hn : g.tableAt? (walked ++ [hop]) = none := by
      rw [h.tableAt?_eq hd, if_neg]
      simpa using hnew
    have htarget : target m (tableOf m base order walked).collection hop = .ok collection := by
      rw [h.target_eq hw, ht]
    exact h.grows.tail (.hop hd hc hn htarget)
  steps := by
    have hold : order.map (stepTo m base (order ++ [walked ++ [hop]])) = order.map (stepTo m base order) :=
      List.map_congr_left fun _ hh => h.stepTo_append _ hh
    have hnext := h.tableOf_next (by simp) hnew ht
    rw [List.map_append, hold, ← h.steps]
    simp [JoinGraph.addHop, JoinStep.table?, stepTo, hnext, tableOf_append _ hw]

theorem Laid.step_error (h : Laid m base order g) {hop : String} {e : Query.Error} (hd : DotFree (walked ++ [hop]))
    (hw : walked = [] ∨ walked ∈ order) (ht : destination m base (walked ++ [hop]) = .error e) :
    g.step m (tableOf m base order walked) (".".intercalate (walked ++ [hop])) hop = (g, .error e) := by
  have hnew : walked ++ [hop] ∉ order := by
    intro hmem
    obtain ⟨collection, hcollection⟩ := h.leads _ hmem
    rw [ht] at hcollection
    cases hcollection
  rw [JoinGraph.step, h.reached?_eq (by simp) hd, if_neg hnew]
  simp only [joinHop, h.target_eq hw, ht]

theorem Laid.step_ok (h : Laid m base seen.eraseDups g) {hop collection : String} (hd : DotFree (walked ++ [hop]))
    (hw : walked = [] ∨ walked ∈ seen) (ht : destination m base (walked ++ [hop]) = .ok collection) :
    ∃ g', g.step m (tableOf m base seen.eraseDups walked) (".".intercalate (walked ++ [hop])) hop =
        (g', .ok (tableOf m base (seen ++ [walked ++ [hop]]).eraseDups (walked ++ [hop]))) ∧
      Laid m base (seen ++ [walked ++ [hop]]).eraseDups g' := by
  have hw' : walked = [] ∨ walked ∈ seen.eraseDups := hw.imp_right List.mem_eraseDups.2
  rw [JoinGraph.step, h.reached?_eq (by simp) hd, eraseDups_append_singleton]
  by_cases hseen : walked ++ [hop] ∈ seen
  · rw [if_pos (List.mem_eraseDups.2 hseen), if_pos hseen]
    exact ⟨g, rfl, h⟩
  · have hnew : walked ++ [hop] ∉ seen.eraseDups := fun hmem => hseen (List.mem_eraseDups.1 hmem)
    have hlaid := h.addHop hd hw' hnew ht
    rw [if_neg hnew, if_neg hseen, h.tableOf_next (by simp) hnew ht]
    simp only [joinHop, h.target_eq hw', ht]
    exact ⟨_, rfl, hlaid⟩

def walksFrom (m : Model) (base : String) (walked hops : List String) : List (List String) :=
  (hops.inits.tail.map (walked ++ ·)).filter fun walked => (destination m base walked).isOk

theorem walks_eq (hops : List String) : walks m base hops = walksFrom m base [] hops := by
  simp [walks, walksFrom]

theorem inits_tail_cons (hop : String) (rest : List String) :
    (hop :: rest).inits.tail = [hop] :: rest.inits.tail.map (hop :: ·) := by
  cases rest <;> simp

theorem walksFrom_cons {hop collection : String} (ht : destination m base (walked ++ [hop]) = .ok collection)
    (rest : List String) :
    walksFrom m base walked (hop :: rest) = (walked ++ [hop]) :: walksFrom m base (walked ++ [hop]) rest := by
  have hok : (destination m base (walked ++ [hop])).isOk = true := by rw [ht]; rfl
  rw [walksFrom, inits_tail_cons, List.map_cons, List.filter_cons, if_pos hok, walksFrom, List.map_map]
  simp [Function.comp_def]

theorem destination_append_error {e : Query.Error} (h : destination m base hops = .error e) (more : List String) :
    destination m base (hops ++ more) = .error e := by
  rw [destination] at h
  rw [destination, List.foldlM_append, h]
  rfl

theorem walksFrom_error {hop : String} {e : Query.Error} (ht : destination m base (walked ++ [hop]) = .error e)
    (rest : List String) : walksFrom m base walked (hop :: rest) = [] := by
  apply List.filter_eq_nil_iff.2
  intro hops hmem
  obtain ⟨more, hmore, rfl⟩ := List.mem_map.1 hmem
  rw [inits_tail_cons] at hmore
  obtain ⟨after, rfl⟩ : ∃ after, more = hop :: after := by
    rcases List.mem_cons.1 hmore with rfl | hmore
    · exact ⟨[], rfl⟩
    · obtain ⟨after, _, rfl⟩ := List.mem_map.1 hmore
      exact ⟨after, rfl⟩
  have hfails := destination_append_error ht after
  rw [List.append_assoc] at hfails
  simp [show walked ++ hop :: after = walked ++ ([hop] ++ after) from rfl, hfails, Except.isOk, Except.toBool]

/-- Hops that are followed add the tables that are walked to before the first hop that fails. -/
theorem Laid.reachFrom (h : Laid m base seen.eraseDups g) (hd : DotFree (walked ++ hops))
    (hw : walked = [] ∨ walked ∈ seen) :
    Laid m base (seen ++ walksFrom m base walked hops).eraseDups
      (g.reachFrom m walked (tableOf m base seen.eraseDups walked) hops).1 := by
  -- each hop that leads somewhere is among the walked ones when the next is followed
  induction hops generalizing g seen walked with
  | nil => simpa [walksFrom, JoinGraph.reachFrom] using h
  | cons hop rest ih =>
    have hd' : DotFree (walked ++ [hop] ++ rest) := by simpa using hd
    have hhop : DotFree (walked ++ [hop]) := fun name hn => hd' name (List.mem_append_left _ hn)
    rw [JoinGraph.reachFrom]
    cases ht : destination m base (walked ++ [hop]) with
    | error e =>
      have hstep := h.step_error hhop (hw.imp_right List.mem_eraseDups.2) ht
      rw [walksFrom_error ht, List.append_nil]
      simpa only [hstep] using h
    | ok collection =>
      obtain ⟨g', hstep, hlaid⟩ := h.step_ok hhop hw ht
      have hrest := ih hlaid hd' (.inr (List.mem_append_right _ (List.mem_singleton_self _)))
      rw [walksFrom_cons ht, List.append_cons]
      simpa only [hstep] using hrest

theorem Laid.columnAt (h : Laid m base seen.eraseDups g) (path : Path) :
    Laid m base (seen ++ walks m base path.hops).eraseDups (g.columnAt m path).1 := by
  have hbase : tableOf m base seen.eraseDups [] = g.base := h.base_eq.symm
  have hreach : Laid m base (seen ++ walksFrom m base [] path.hops).eraseDups
      (g.reachFrom m [] (tableOf m base seen.eraseDups []) path.hops).1 :=
    h.reachFrom path.dotFree_hops (.inl rfl)
  rw [← walks_eq, hbase] at hreach
  rw [JoinGraph.columnAt, reach]
  cases hr : g.reachFrom m [] g.base path.hops with
  | mk g' result =>
    rw [hr] at hreach
    cases result <;> exact hreach

theorem Laid.call (h : Laid m base seen.eraseDups g) (c : Call) :
    Laid m base (seen ++ c.walks m base).eraseDups (g.call m c) := by
  cases c with
  | path path => exact h.columnAt path
  | raw sql =>
    rw [Call.walks, List.append_nil]
    exact h.addRaw sql

/-- The tables of a graph, numbered in the order of the hops that lead to them. A collection is called by the
alias of its first table. -/
structure Numbered (m : Model) (base : String) (order : List (List String)) (g : JoinGraph) : Prop where
  distinct : order.Nodup
  prefixes_first : order.Pairwise fun earlier later => ¬ later <+: earlier
  joins : g.joins.filter Sql.Join.isGenerated = order.map fun hops => (stepTo m base order hops).join
  aliases : ∀ i hops, order[i]? = some hops → ∃ collection, destination m base hops = .ok collection ∧
    tableOf m base order hops = ⟨collection, String.ofList (letter collection :: Decimal.digitChars (i + 1))⟩
  firsts : ∀ collection, g.aliasFor? collection =
    if collection = base then some (String.ofList [letter base])
    else (order.find? fun hops => (tableOf m base order hops).collection == collection).map fun hops =>
      (tableOf m base order hops).aliasName

theorem Laid.numbered (h : Laid m base order g) : Numbered m base order g where
  distinct := h.nodup
  prefixes_first := h.ordered
  joins := by
    have hfilter : g.joins.filter Sql.Join.isGenerated = (g.steps.filter (·.table?.isSome)).map JoinStep.join := by
      rw [JoinGraph.joins, List.filter_map]
      congr 2
      funext step
      cases step <;> rfl
    rw [hfilter, h.steps, List.map_map]
    rfl
  aliases := by
    intro i hops hi
    obtain ⟨hlt, hget⟩ := List.getElem?_eq_some_iff.1 hi
    have hmem : hops ∈ order := List.mem_of_getElem? hi
    obtain ⟨collection, hcollection⟩ := h.leads hops hmem
    have hindex : order.idxOf hops = i := by rw [← hget, h.nodup.idxOf_getElem]
    refine ⟨collection, hcollection, ?_⟩
    rw [tableOf_eq (h.dotFree hops hmem).1 hcollection, hindex]
  firsts := by
    intro collection
    rw [aliasFor?, List.find?_cons, h.base_eq, h.tables_eq, List.find?_map]
    by_cases he : collection = base
    · simp [he, new]
    · have hne : ((new base).base.collection == collection) = false := by
        rw [beq_eq_false_iff_ne]
        exact Ne.symm he
      rw [hne, if_neg he, Option.map_map]
      rfl

end JoinGraph

end Retrieval
