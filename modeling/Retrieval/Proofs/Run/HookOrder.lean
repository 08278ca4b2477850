import Retrieval.Proofs.Dict
import Retrieval.Proofs.Run.Action

namespace Retrieval

namespace Hook

def assignments? (h : Hook) : Option (Dict Json) :=
  match h.action with
  | .set assignments => some assignments
  | .email .. | .query _ => none

/-- A record under the assignments of hooks, one after the other. -/
def overlaid (record : Row) (hooks : List Hook) : Row :=
  (hooks.filterMap assignments?).foldl Dict.overlay record

def assigned (hooks : List Hook) : List (String × Json) :=
  (hooks.filterMap assignments?).flatMap (·.entries)

/-- Fires hooks one after the other, each in an outside of its own, since pools and mailers may change between
two hooks without anything being sent. -/
def fireEach (history : History) (record : Row) : List (World × Hook) → List Firing × History
  | [] => ([], history)
  | (w, h) :: rest =>
    let fired := h.fire w history record
    let later := fireEach fired.2 fired.1.record rest
    (fired.1 :: later.1, later.2)

def finalRecord (record : Row) (firings : List Firing) : Row :=
  (firings.getLast?.map (·.record)).getD record

/-- What becomes of hooks that are fired one after the other, and of the record. -/
structure FiresInOrder (history : History) (record : Row) (steps : List (World × Hook)) : Prop where
  length : (fireEach history record steps).1.length = steps.length
  step : ∀ before w h after, steps = before ++ (w, h) :: after → ∃ firing,
    (fireEach history record steps).1[before.length]? = some firing ∧
      firing.record = overlaid record (before.map (·.2) ++ [h]) ∧
      Does w (fireEach history record before).2 (overlaid record (before.map (·.2))) h.action
        (firing, (fireEach history record (before ++ [(w, h)])).2)
  unchanged : ∀ before w h after firing, steps = before ++ (w, h) :: after →
    (∀ assignments, h.action ≠ .set assignments) →
      (fireEach history record steps).1[before.length]? = some firing →
        firing.record = finalRecord record (fireEach history record before).1
  final : finalRecord record (fireEach history record steps).1 = overlaid record (steps.map (·.2))
  found : ∀ key, (overlaid record (steps.map (·.2))).find? key =
    ((assigned (steps.map (·.2))).reverse.lookup key).or (record.find? key)

variable {h : Hook} {q : QueryTemplate} {record : Row} {inputs : List Json} {w : World} {history : History}
  {e : Request.Error} {steps : List (World × Hook)}

theorem overlaid_of_not_set (hset : ∀ assignments, h.action ≠ .set assignments) : overlaid record [h] = record := by
  cases ha : h.action with
  | set assignments => exact absurd ha (hset assignments)
  | email | query => simp [overlaid, assignments?, ha]

theorem fire_record_eq_overlaid (w : World) (history : History) (record : Row) (h : Hook) :
    (h.fire w history record).1.record = overlaid record [h] := by
  cases ha : h.action with
  | set assignments =>
    rw [fire_set ha]
    simp [overlaid, assignments?, ha]
  | email | query =>
    have hset : ∀ assignments, h.action ≠ .set assignments := by simp [ha]
    rw [fire_record hset, overlaid_of_not_set hset]

theorem overlaid_append (record : Row) (hooks more : List Hook) :
    overlaid record (hooks ++ more) = overlaid (overlaid record hooks) more := by
  rw [overlaid, List.filterMap_append, List.foldl_append]
  rfl

theorem overlaid_eq_overlay (record : Row) (hooks : List Hook) :
    overlaid record hooks = record.overlay ⟨assigned hooks⟩ := by
  rw [Dict.overlay, assigned, List.foldl_flatMap]
  rfl

theorem fireAll_eq_fireEach (w : World) (history : History) (record : Row) (hooks : List Hook) :
    fireAll w history record hooks = fireEach history record (hooks.map (w, ·)) := by
  induction hooks generalizing history record with
  | nil => rfl
  | cons h rest ih =>
    rw [fireAll, List.map_cons, fireEach]
    dsimp only
    rw [ih]

/-- Later hooks are fired against the record that the earlier leave, and behind what they have sent. -/
theorem fireEach_append (before steps : List (World × Hook)) : fireEach history record (before ++ steps) =
    ((fireEach history record before).1 ++
      (fireEach (fireEach history record before).2 (overlaid record (before.map (·.2))) steps).1,
      (fireEach (fireEach history record before).2 (overlaid record (before.map (·.2))) steps).2) := by
  induction before generalizing history record with
  | nil => rfl
  | cons first rest ih =>
    obtain ⟨w, h⟩ := first
    have hrecord : overlaid record (((w, h) :: rest).map (·.2)) =
        overlaid (h.fire w history record).1.record (rest.map (·.2)) := by
      rw [fire_record_eq_overlaid, ← overlaid_append]
      rfl
    rw [List.cons_append, fireEach, ih, hrecord]
    rfl

theorem fireEach_length : (fireEach history record steps).1.length = steps.length := by
  induction steps generalizing history record with
  | nil => rfl
  | cons first rest ih => rw [fireEach, List.length_cons, List.length_cons, ih]

theorem fireEach_step (before : List (World × Hook)) (w : World) (h : Hook) :
    fireEach history record (before ++ [(w, h)]) =
      ((fireEach history record before).1 ++
        [(h.fire w (fireEach history record before).2 (overlaid record (before.map (·.2)))).1],
        (h.fire w (fireEach history record before).2 (overlaid record (before.map (·.2)))).2) := by
  rw [fireEach_append]
  rfl

theorem fireEach_getElem? (before after : List (World × Hook)) (w : World) (h : Hook) :
    (fireEach history record (before ++ (w, h) :: after)).1[before.length]? =
      some (h.fire w (fireEach history record before).2 (overlaid record (before.map (·.2)))).1 := by
  rw [fireEach_append, List.getElem?_append_right fireEach_length.le, fireEach_length, Nat.sub_self]
  rfl

theorem finalRecord_fireEach : finalRecord record (fireEach history record steps).1 =
    overlaid record (steps.map (·.2)) := by
  induction steps using List.reverseRecOn with
  | nil => rfl
  | append_singleton before last _ =>
    rw [fireEach_step, finalRecord, List.getLast?_append, List.map_append, overlaid_append,
      List.map_singleton, ← fire_record_eq_overlaid]
    rfl

theorem firesInOrder (history : History) (record : Row) (steps : List (World × Hook)) :
    FiresInOrder history record steps := by
  refine ⟨fireEach_length, ?step, ?unchanged, finalRecord_fireEach, ?found⟩
  case step =>
    rintro before w h after rfl
    refine ⟨_, fireEach_getElem? before after w h, ?_, ?_⟩
    · rw [fire_record_eq_overlaid, overlaid_append]
    · rw [fireEach_step]
      exact does_fire w _ _ h
  case unchanged =>
    rintro before w h after firing rfl hset hfiring
    rw [fireEach_getElem?, Option.some.injEq] at hfiring
    rw [← hfiring, fire_record hset, finalRecord_fireEach]
  case found =>
    intro key
    rw [overlaid_eq_overlay, Dict.find?_overlay_last]

/-- Hooks that are fired one after the other leave the record under the assignments of those that assign, in order
and whatever fails. Each is fired against the record as the assignments before it leave it. Mails and queries leave
the record as it is. A query that lacks a field, or whose parameter does not take what it finds, does nothing, and a
missing field is never a null. -/
theorem fireAll_in_order :
    (∀ w history record hooks, fireAll w history record hooks = fireEach history record (hooks.map (w, ·))) ∧
    (∀ history record steps, FiresInOrder history record steps) ∧
    (∀ (h : Hook) w history record, (∀ assignments, h.action ≠ .set assignments) →
      (h.fire w history record).1.record = record) ∧
    (∀ (h : Hook) q record p, h.action = .query q → p ∈ q.parameters →
      (record.find? p.source = none ∨
        ∃ v cause, record.find? p.source = some v ∧ p.field.literal v = .error cause) →
        ∃ e, Refused record q e ∧
          ∀ w history, h.fire w history record = (⟨.error (.request e), record⟩, history)) ∧
    ∀ (h : Hook) q record p, h.action = .query q → p ∈ q.parameters → record.find? p.source = none →
      ∃ key, record.find? key = none ∧
        ∀ w history, h.fire w history record = (⟨.error (.request (.unboundField key)), record⟩, history) := by
  refine ⟨fireAll_eq_fireEach, firesInOrder, fun _ _ _ _ => fire_record, ?refused, ?missing⟩
  case refused =>
    intro h q record p hq hp hrefused
    obtain ⟨e, he⟩ := exists_refused hp hrefused
    exact ⟨e, he, fire_refused hq he⟩
  case missing =>
    intro h q record p hq hp hmissing
    obtain ⟨key, hkey, he⟩ := exists_refused_missing hp hmissing
    exact ⟨key, hkey, fire_refused hq he⟩

end Hook

end Retrieval
