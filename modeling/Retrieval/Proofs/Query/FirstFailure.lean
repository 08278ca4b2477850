import Retrieval.Proofs.Query.Filter

namespace Retrieval

open Sql

namespace Filter

inductive Entry
  | condition (c : Condition)
  | search (key term : String)

def Entry.predicates (c : Collection) (p : Selection) : Entry → Except Request.Error (List Expr)
  | .condition filter => (filter.predicate p).map ([·])
  | .search key term => Search.predicates c p key term

/-- The entries of a request in order: its key, its conditions, and its search entries by key. -/
def entries (r : Request) : List Entry :=
  (conditions r).map .condition ++ r.search.entries.map fun e => .search e.1 e.2

end Filter

/-- A request without the entries of its filter behind the first `n`. -/
def Request.firstEntries (r : Request) (n : Nat) : Request :=
  let pk := if n = 0 then none else r.pk
  let more := n - pk.toList.length
  { r with
    pk := pk
    conditions := r.conditions.take more
    search := ⟨r.search.entries.take (more - r.conditions.length)⟩ }

namespace Filter

variable {c : Collection} {p : Selection} {r : Request} {done out : List Expr} {items more : List Entry}
  {e : Request.Error}

theorem tag_eq_error {α : Type} {index : Nat} {x : Except Request.Error α} :
    tag index x = .error e ↔ ∃ cause, x = .error cause ∧ e = .condition index cause := by
  cases x <;> simp [tag, eq_comm]

theorem tag_map {α β : Type} (index : Nat) (x : Except Request.Error α) (f : α → β) :
    tag index (x.map f) = (tag index x).map f := by
  cases x <;> rfl

theorem conditions_firstEntries (r : Request) (n : Nat) :
    conditions (r.firstEntries n) = (conditions r).take n := by
  cases n with
  | zero => simp [conditions, Request.firstEntries]
  | succ n => cases hpk : r.pk <;> simp [conditions, Request.firstEntries, hpk]

theorem search_firstEntries (r : Request) (n : Nat) :
    (r.firstEntries n).search.entries = r.search.entries.take (n - (conditions r).length) := by
  cases n with
  | zero => simp [Request.firstEntries]
  | succ n => cases hpk : r.pk <;> simp [conditions, Request.firstEntries, hpk]

theorem entries_firstEntries (r : Request) (n : Nat) : entries (r.firstEntries n) = (entries r).take n := by
  rw [entries, entries, conditions_firstEntries, search_firstEntries, List.take_append, List.map_take,
    List.map_take, List.length_map]

/-- One loop over entries of both kinds. -/
def addEntries (c : Collection) (p : Selection) (done : List Expr) :
    List Entry → Except Request.Error (List Expr)
  | [] => .ok done
  | entry :: rest =>
    match tag done.length (entry.predicates c p) with
    | .error e => .error e
    | .ok predicates => addEntries c p (done ++ predicates) rest

theorem addEntries_append : addEntries c p done (items ++ more) =
    addEntries c p done items >>= fun out => addEntries c p out more := by
  induction items generalizing done with
  | nil => rfl
  | cons entry rest ih =>
    rw [List.cons_append, addEntries, addEntries]
    cases tag done.length (entry.predicates c p) with
    | error e => rfl
    | ok predicates => exact ih

theorem addConditions_eq_addEntries (conditions : List Condition) :
    addConditions p done conditions = addEntries c p done (conditions.map .condition) := by
  induction conditions generalizing done with
  | nil => rfl
  | cons condition rest ih =>
    rw [addConditions, List.map_cons, addEntries, Entry.predicates, tag_map]
    cases tag done.length (condition.predicate p) with
    | error e => rfl
    | ok predicate => exact ih

theorem addSearches_eq_addEntries (searches : List (String × String)) :
    addSearches c p done searches = addEntries c p done (searches.map fun e => .search e.1 e.2) := by
  induction searches generalizing done with
  | nil => rfl
  | cons search rest ih =>
    rw [addSearches, List.map_cons, addEntries, Entry.predicates]
    cases tag done.length (Search.predicates c p search.1 search.2) with
    | error e => rfl
    | ok predicates => exact ih

/-- The loop over the conditions and the one over the search entries count the same predicates. -/
theorem predicates_eq_addEntries (c : Collection) (p : Selection) (r : Request) :
    predicates c p r = addEntries c p [] (entries r) := by
  simp only [predicates, entries, addEntries_append, addConditions_eq_addEntries (c := c),
    addSearches_eq_addEntries]

theorem addEntries_eq_ok : addEntries c p done items = .ok out ↔
    ∃ found, List.Forall₂ (fun entry es => entry.predicates c p = .ok es) items found ∧
      out = done ++ found.flatten := by
  induction items generalizing done with
  | nil => simp [addEntries, eq_comm]
  | cons entry rest ih =>
    simp only [addEntries, List.forall₂_cons_left_iff]
    cases ht : tag done.length (entry.predicates c p) with
    | error e => simp [ne_ok_of_tag ht]
    | ok es =>
      rw [tag_eq_ok] at ht
      simp only [ht, ih, Except.ok.injEq]
      constructor
      · rintro ⟨found, hfound, rfl⟩
        exact ⟨es :: found, ⟨es, found, rfl, hfound, rfl⟩, by simp⟩
      · rintro ⟨_, ⟨_, found, rfl, hfound, rfl⟩, rfl⟩
        exact ⟨found, hfound, by simp⟩

theorem addEntries_eq_error : addEntries c p done items = .error e ↔
    ∃ before entry after cause out, items = before ++ entry :: after ∧
      addEntries c p done before = .ok out ∧ entry.predicates c p = .error cause ∧
      e = .condition out.length cause := by
  constructor
  · intro h
    induction items generalizing done with
    | nil => cases h
    | cons first rest ih =>
      rw [addEntries] at h
      cases ht : tag done.length (first.predicates c p) with
      | error e' =>
        rw [ht] at h
        cases h
        obtain ⟨cause, hcause, he⟩ := tag_eq_error.1 ht
        exact ⟨[], first, rest, cause, done, rfl, rfl, hcause, he⟩
      | ok es =>
        rw [ht] at h
        obtain ⟨before, entry, after, cause, out, hrest, hbefore, hcause, he⟩ := ih h
        refine ⟨first :: before, entry, after, cause, out, by rw [hrest, List.cons_append], ?_, hcause, he⟩
        rw [addEntries, ht]
        exact hbefore
  · rintro ⟨before, entry, after, cause, out, rfl, hbefore, hcause, rfl⟩
    rw [addEntries_append, hbefore]
    change addEntries c p out (entry :: after) = _
    rw [addEntries, hcause]
    rfl

theorem predicates_eq_ok : predicates c p r = .ok out ↔
    ∃ found, List.Forall₂ (fun entry es => entry.predicates c p = .ok es) (entries r) found ∧
      out = found.flatten := by
  rw [predicates_eq_addEntries, addEntries_eq_ok]
  simp only [List.nil_append]

theorem exists_predicates :
    (∃ out, predicates c p r = .ok out) ↔ ∀ entry ∈ entries r, ∃ es, entry.predicates c p = .ok es := by
  rw [← exists_forall₂]
  constructor
  · rintro ⟨out, hout⟩
    obtain ⟨found, hfound, _⟩ := predicates_eq_ok.1 hout
    exact ⟨found, hfound⟩
  · rintro ⟨found, hfound⟩
    exact ⟨_, predicates_eq_ok.2 ⟨found, hfound, rfl⟩⟩

theorem predicates_firstEntries {before after : List Entry} {entry : Entry}
    (h : entries r = before ++ entry :: after) :
    predicates c p (r.firstEntries before.length) = addEntries c p [] before := by
  rw [predicates_eq_addEntries, entries_firstEntries, h, List.take_left]

/-- A filter can be compiled if each of its entries can be on its own, and then it is all their predicates in
order. Otherwise it fails with the error of the first entry that cannot be, and with the number of predicates that
the request has before it. -/
theorem predicates_first_failure (c : Collection) (p : Selection) (r : Request) :
    ((∃ out, predicates c p r = .ok out) ↔ ∀ entry ∈ entries r, ∃ es, entry.predicates c p = .ok es) ∧
    (∀ out, predicates c p r = .ok out ↔
      ∃ found, List.Forall₂ (fun entry es => entry.predicates c p = .ok es) (entries r) found ∧
        out = found.flatten) ∧
    ∀ e, predicates c p r = .error e ↔
      ∃ before entry after cause done, entries r = before ++ entry :: after ∧
        (∀ earlier ∈ before, ∃ es, earlier.predicates c p = .ok es) ∧ entry.predicates c p = .error cause ∧
        entries (r.firstEntries before.length) = before ∧
        predicates c p (r.firstEntries before.length) = .ok done ∧ e = .condition done.length cause := by
  refine ⟨exists_predicates, fun out => predicates_eq_ok, ?_⟩
  intro e
  rw [predicates_eq_addEntries, addEntries_eq_error]
  constructor
  · rintro ⟨before, entry, after, cause, done, hsplit, hbefore, hcause, he⟩
    obtain ⟨found, hfound, _⟩ := addEntries_eq_ok.1 hbefore
    refine ⟨before, entry, after, cause, done, hsplit, exists_forall₂.1 ⟨found, hfound⟩, hcause, ?_, ?_, he⟩
    · rw [entries_firstEntries, hsplit, List.take_left]
    · rw [predicates_firstEntries hsplit, hbefore]
  · rintro ⟨before, entry, after, cause, done, hsplit, _, hcause, _, hdone, he⟩
    rw [predicates_firstEntries hsplit] at hdone
    exact ⟨before, entry, after, cause, done, hsplit, hdone, hcause, he⟩

end Filter

end Retrieval
