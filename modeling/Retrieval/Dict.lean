namespace Retrieval

universe u v

/-- Entries under string keys. `insert` keeps the keys increasing. -/
structure Dict (α : Type u) where
  entries : List (String × α) := []
  deriving Repr, Inhabited

namespace Dict

variable {α : Type u} {β : Type v}

def empty : Dict α := {}

def insertEntry (key : String) (value : α) : List (String × α) → List (String × α)
  | [] => [(key, value)]
  | (k, v) :: rest =>
    if key < k then (key, value) :: (k, v) :: rest
    else if key = k then (key, value) :: rest
    else (k, v) :: insertEntry key value rest

def insert (d : Dict α) (key : String) (value : α) : Dict α :=
  ⟨insertEntry key value d.entries⟩

def ofList (entries : List (String × α)) : Dict α :=
  entries.foldl (fun d e => d.insert e.1 e.2) empty

def find? (d : Dict α) (key : String) : Option α :=
  d.entries.lookup key

def contains (d : Dict α) (key : String) : Bool :=
  (d.find? key).isSome

def keys (d : Dict α) : List String :=
  d.entries.map (·.1)

def values (d : Dict α) : List α :=
  d.entries.map (·.2)

def size (d : Dict α) : Nat :=
  d.entries.length

def map (f : String → α → β) (d : Dict α) : Dict β :=
  ⟨d.entries.map fun e => (e.1, f e.1 e.2)⟩

def modify (d : Dict α) (key : String) (f : α → α) : Dict α :=
  d.map fun k v => if k = key then f v else v

def mapM {m : Type v → Type v} [Monad m] {β : Type v} {α : Type v}
    (f : String → α → m β) (d : Dict α) : m (Dict β) := do
  let entries ← d.entries.mapM fun e => do
    let value ← f e.1 e.2
    pure (e.1, value)
  pure ⟨entries⟩

/-- The later map wins where both have a value. -/
def overlay (d later : Dict α) : Dict α :=
  later.entries.foldl (fun d e => d.insert e.1 e.2) d

def Ordered (d : Dict α) : Prop :=
  d.keys.Pairwise (· < ·)

@[simp] theorem find?_empty (key : String) : (empty : Dict α).find? key = none := rfl

theorem lookup_insertEntry (key k : String) (value : α) (entries : List (String × α)) :
    (insertEntry key value entries).lookup k =
      if k = key then some value else entries.lookup k := by
  induction entries with
  | nil => by_cases h : k = key <;> simp [insertEntry, List.lookup_cons, h, beq_eq_false_iff_ne.2]
  | cons e rest ih =>
    obtain ⟨k', v⟩ := e
    simp only [insertEntry]
    split
    · by_cases h : k = key <;> simp [List.lookup_cons, h, beq_eq_false_iff_ne.2]
    · split
      · subst_vars
        by_cases h : k = k' <;> simp [List.lookup_cons, h, beq_eq_false_iff_ne.2]
      · rename_i different
        by_cases h : k = k'
        · subst h
          simp [Ne.symm different]
        · simp [List.lookup_cons, ih, beq_eq_false_iff_ne.2 h]

@[simp] theorem find?_insert (d : Dict α) (key k : String) (value : α) :
    (d.insert key value).find? k = if k = key then some value else d.find? k :=
  lookup_insertEntry key k value d.entries

theorem mem_keys_insertEntry {key k : String} {value : α} {entries : List (String × α)} :
    k ∈ (insertEntry key value entries).map (·.1) ↔ k = key ∨ k ∈ entries.map (·.1) := by
  induction entries with
  | nil => simp [insertEntry]
  | cons e rest ih =>
    obtain ⟨k', v⟩ := e
    simp only [insertEntry]
    split
    · simp
    · split
      · subst_vars
        simp
      · simp only [List.map_cons, List.mem_cons, ih]
        exact or_left_comm

@[simp] theorem mem_keys_insert {d : Dict α} {key k : String} {value : α} :
    k ∈ (d.insert key value).keys ↔ k = key ∨ k ∈ d.keys :=
  mem_keys_insertEntry

theorem ordered_empty : (empty : Dict α).Ordered :=
  List.Pairwise.nil

theorem pairwise_insertEntry {key : String} {value : α} {entries : List (String × α)}
    (h : (entries.map (·.1)).Pairwise (· < ·)) :
    ((insertEntry key value entries).map (·.1)).Pairwise (· < ·) := by
  induction entries with
  | nil => simp [insertEntry]
  | cons e rest ih =>
    obtain ⟨k, v⟩ := e
    have ⟨first, others⟩ := List.pairwise_cons.1 h
    simp only [insertEntry]
    split
    · rename_i before
      refine List.pairwise_cons.2 ⟨fun k' member => ?_, h⟩
      rcases List.mem_cons.1 member with same | later
      · exact same ▸ before
      · exact String.lt_trans before (first k' later)
    · split
      · subst_vars
        exact h
      · rename_i notBefore different
        refine List.pairwise_cons.2 ⟨fun k' member => ?_, ih others⟩
        rcases mem_keys_insertEntry.1 member with same | later
        · subst same
          by_cases after : k < k'
          · exact after
          · exact absurd (String.le_antisymm (String.not_lt.1 after) (String.not_lt.1 notBefore))
              different
        · exact first k' later

theorem Ordered.insert {d : Dict α} (h : d.Ordered) (key : String) (value : α) :
    (d.insert key value).Ordered :=
  pairwise_insertEntry h

theorem Ordered.overlay {d : Dict α} (h : d.Ordered) (later : Dict α) :
    (d.overlay later).Ordered := by
  unfold Dict.overlay
  induction later.entries generalizing d with
  | nil => exact h
  | cons e rest ih => exact ih (h.insert e.1 e.2)

theorem ordered_ofList (entries : List (String × α)) : (ofList entries).Ordered :=
  ordered_empty.overlay ⟨entries⟩

end Dict

end Retrieval
