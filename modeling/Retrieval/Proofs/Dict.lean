import Mathlib.Data.List.Induction
import Mathlib.Data.List.Nodup
import Retrieval.Dict
import Retrieval.Proofs.Except

namespace Retrieval.Dict

variable {α β ε : Type}

theorem mem_of_find? {d : Dict α} {key : String} {value : α} (h : d.find? key = some value) :
    (key, value) ∈ d.entries := by
  obtain ⟨before, after, he, _⟩ := List.lookup_eq_some_iff.1 h
  rw [he]
  simp

theorem mem_keys_of_mem {d : Dict α} {e : String × α} (h : e ∈ d.entries) : e.1 ∈ d.keys :=
  List.mem_map_of_mem h

theorem contains_iff_mem_keys {d : Dict α} {key : String} : d.contains key = true ↔ key ∈ d.keys := by
  rw [contains, find?, List.lookup_isSome_iff, keys, List.mem_map]
  constructor
  · rintro ⟨e, he, hk⟩
    exact ⟨e, he, (beq_iff_eq.1 hk).symm⟩
  · rintro ⟨e, he, hk⟩
    exact ⟨e, he, beq_iff_eq.2 hk.symm⟩

theorem mem_insertEntry {key : String} {value : α} {entries : List (String × α)}
    (h : key ∉ entries.map (·.1)) {e : String × α} :
    e ∈ insertEntry key value entries ↔ e = (key, value) ∨ e ∈ entries := by
  induction entries with
  | nil => simp [insertEntry]
  | cons first rest ih =>
    obtain ⟨k, v⟩ := first
    rw [List.map_cons, List.mem_cons, not_or] at h
    rw [insertEntry, if_neg h.1]
    split
    · exact List.mem_cons
    · rw [List.mem_cons, ih h.2, List.mem_cons]
      exact or_left_comm

theorem mem_insert {d : Dict α} {key : String} {value : α} (h : d.find? key = none) {e : String × α} :
    e ∈ (d.insert key value).entries ↔ e = (key, value) ∨ e ∈ d.entries := by
  apply mem_insertEntry
  intro hk
  have hcontains := contains_iff_mem_keys.2 hk
  rw [contains, h] at hcontains
  cases hcontains

theorem lookup_map (f : String → α → β) (entries : List (String × α)) (key : String) :
    (entries.map fun e => (e.1, f e.1 e.2)).lookup key = (entries.lookup key).map (f key) := by
  induction entries with
  | nil => rfl
  | cons e rest ih =>
    obtain ⟨k, v⟩ := e
    rw [List.map_cons, List.lookup_cons, List.lookup_cons, ih]
    by_cases h : key = k
    · subst h
      simp
    · simp [beq_eq_false_iff_ne.2 h]

@[simp] theorem find?_map (f : String → α → β) (d : Dict α) (key : String) :
    (d.map f).find? key = (d.find? key).map (f key) :=
  lookup_map f d.entries key

@[simp] theorem keys_map (f : String → α → β) (d : Dict α) : (d.map f).keys = d.keys := by
  simp [keys, map]

@[simp] theorem contains_map (f : String → α → β) (d : Dict α) (key : String) :
    (d.map f).contains key = d.contains key := by
  simp [contains]

theorem map_map {γ : Type} (g : String → β → γ) (f : String → α → β) (d : Dict α) :
    (d.map f).map g = d.map fun key value => g key (f key value) := by
  simp [map]

theorem map_eq_self {f : String → α → α} {d : Dict α}
    (h : ∀ e ∈ d.entries, f e.1 e.2 = e.2) : d.map f = d := by
  obtain ⟨entries⟩ := d
  refine congrArg Dict.mk ?_
  conv_rhs => rw [← List.map_id entries]
  apply List.map_congr_left
  intro e he
  rw [h e he]
  rfl

/-- Dictionaries with the same keys, in the same order, and values that are related under each. -/
def Matches (R : String → α → β → Prop) (d : Dict α) (d' : Dict β) : Prop :=
  List.Forall₂ (fun e e' => e'.1 = e.1 ∧ R e.1 e.2 e'.2) d.entries d'.entries

namespace Matches

variable {R S : String → α → β → Prop} {d : Dict α} {d' : Dict β}

theorem imp (h : d.Matches R d') (hrs : ∀ key value value', R key value value' → S key value value') :
    d.Matches S d' :=
  List.Forall₂.imp (fun _ _ he => ⟨he.1, hrs _ _ _ he.2⟩) h

theorem keys_eq (h : d.Matches R d') : d'.keys = d.keys := by
  rw [keys, keys]
  rw [Matches] at h
  generalize d.entries = es, d'.entries = es' at h
  induction h with
  | nil => rfl
  | cons he _ ih => rw [List.map_cons, List.map_cons, he.1, ih]

theorem rel_find? (h : d.Matches R d') (key : String) : Option.Rel (R key) (d.find? key) (d'.find? key) := by
  rw [Dict.find?, Dict.find?]
  rw [Matches] at h
  generalize d.entries = es, d'.entries = es' at h
  induction h with
  | nil => exact .none
  | @cons e e' _ _ he _ ih =>
    obtain ⟨k, v⟩ := e
    obtain ⟨k', v'⟩ := e'
    obtain ⟨rfl, hv⟩ := he
    rw [List.lookup_cons, List.lookup_cons]
    cases hkk : key == k' with
    | true =>
      rw [beq_iff_eq.1 hkk]
      exact .some hv
    | false => exact ih

theorem exists_right (h : d.Matches R d') {key : String} {value : α} (hk : d.find? key = some value) :
    ∃ value', d'.find? key = some value' ∧ R key value value' := by
  have hrel := h.rel_find? key
  rw [hk] at hrel
  generalize d'.find? key = found at hrel ⊢
  cases hrel with
  | some hv => exact ⟨_, rfl, hv⟩

theorem exists_left (h : d.Matches R d') {key : String} {value' : β} (hk : d'.find? key = some value') :
    ∃ value, d.find? key = some value ∧ R key value value' := by
  have hrel := h.rel_find? key
  rw [hk] at hrel
  generalize d.find? key = found at hrel ⊢
  cases hrel with
  | some hv => exact ⟨_, rfl, hv⟩

theorem find?_eq_none (h : d.Matches R d') {key : String} (hk : d.find? key = none) : d'.find? key = none := by
  have hrel := h.rel_find? key
  rw [hk] at hrel
  generalize d'.find? key = found at hrel ⊢
  cases hrel
  rfl

end Matches

theorem mapM_eq_ok {f : String → α → Except ε β} {d : Dict α} {d' : Dict β} :
    d.mapM f = .ok d' ↔ d.Matches (fun key value value' => f key value = .ok value') d' := by
  obtain ⟨entries'⟩ := d'
  have hentry : ∀ (e : String × α) (e' : String × β),
      (∃ value, f e.1 e.2 = .ok value ∧ (e.1, value) = e') ↔ e'.1 = e.1 ∧ f e.1 e.2 = .ok e'.2 := by
    rintro ⟨key, value⟩ ⟨key', value'⟩
    constructor
    · rintro ⟨_, hv, he⟩
      cases he
      exact ⟨rfl, hv⟩
    · rintro ⟨rfl, hv⟩
      exact ⟨value', hv, rfl⟩
  simp [Matches, mapM, bind_eq_ok, Retrieval.mapM_eq_ok, pure, Except.pure, hentry]

theorem keys_of_mapM {f : String → α → Except ε β} {d : Dict α} {d' : Dict β}
    (h : d.mapM f = .ok d') : d'.keys = d.keys :=
  (mapM_eq_ok.1 h).keys_eq

theorem find?_of_mapM {f : String → α → Except ε β} {d : Dict α} {d' : Dict β}
    (h : d.mapM f = .ok d') {key : String} {value' : β} (hk : d'.find? key = some value') :
    ∃ value, d.find? key = some value ∧ f key value = .ok value' :=
  (mapM_eq_ok.1 h).exists_left hk

theorem Ordered.nodup_keys {d : Dict α} (h : d.Ordered) : d.keys.Nodup :=
  List.Pairwise.imp (fun hlt heq => absurd (heq ▸ hlt) (String.lt_irrefl _)) h

theorem mem_keys_overlay {d later : Dict α} {key : String} :
    key ∈ (d.overlay later).keys ↔ key ∈ d.keys ∨ key ∈ later.keys := by
  obtain ⟨entries⟩ := later
  induction entries generalizing d with
  | nil => simp [overlay, keys]
  | cons e rest ih =>
    have hrest := @ih (d.insert e.1 e.2)
    have hcons : key ∈ keys ⟨e :: rest⟩ ↔ key = e.1 ∨ key ∈ keys ⟨rest⟩ := List.mem_cons
    rw [mem_keys_insert, or_comm (b := key ∈ d.keys), or_assoc, ← hcons] at hrest
    exact hrest

theorem find?_overlay {d later : Dict α} (h : later.keys.Nodup) (key : String) :
    (d.overlay later).find? key = (later.find? key).or (d.find? key) := by
  obtain ⟨entries⟩ := later
  induction entries generalizing d with
  | nil => rfl
  | cons e rest ih =>
    obtain ⟨k, v⟩ := e
    obtain ⟨hnew, hrest⟩ := List.nodup_cons.1 h
    have hfound : (d.overlay ⟨(k, v) :: rest⟩).find? key =
        (find? ⟨rest⟩ key).or ((d.insert k v).find? key) := ih hrest
    have hcons : find? ⟨(k, v) :: rest⟩ key =
        match key == k with | true => some v | false => find? ⟨rest⟩ key := List.lookup_cons
    rw [hfound, find?_insert, hcons]
    by_cases hk : key = k
    · subst hk
      have hnone : find? ⟨rest⟩ key = none := by
        rw [← Option.not_isSome_iff_eq_none]
        exact fun hsome => hnew (contains_iff_mem_keys.1 hsome)
      rw [hnone, if_pos rfl, beq_self_eq_true]
      rfl
    · rw [if_neg hk, beq_eq_false_iff_ne.2 hk]

/-- Of several entries under a key the last is found. -/
theorem find?_overlay_last (d later : Dict α) (key : String) :
    (d.overlay later).find? key = (later.entries.reverse.lookup key).or (d.find? key) := by
  obtain ⟨entries⟩ := later
  rw [overlay]
  dsimp only
  induction entries using List.reverseRecOn with
  | nil => rfl
  | append_singleton front last ih =>
    obtain ⟨k, v⟩ := last
    rw [List.foldl_append, List.foldl_cons, List.foldl_nil, find?_insert, ih, List.reverse_append,
      List.reverse_singleton, List.singleton_append, List.lookup_cons]
    by_cases hk : key = k
    · rw [if_pos hk, beq_iff_eq.2 hk]
      rfl
    · rw [if_neg hk, beq_eq_false_iff_ne.2 hk]

theorem ofList_eq_overlay (entries : List (String × α)) : ofList entries = empty.overlay ⟨entries⟩ := rfl

theorem lookup_of_mem {entries : List (String × α)} (h : (entries.map (·.1)).Nodup) {e : String × α}
    (he : e ∈ entries) : entries.lookup e.1 = some e.2 := by
  rw [List.lookup_eq_some_iff]
  obtain ⟨before, after, rfl⟩ := List.append_of_mem he
  rw [List.map_append, List.map_cons, List.nodup_middle, List.nodup_cons] at h
  refine ⟨before, after, rfl, fun e' he' => ?_⟩
  rw [bne_iff_ne]
  rintro hkey
  exact h.1 (List.mem_append_left _ (hkey ▸ List.mem_map_of_mem he'))

theorem find?_ofList {entries : List (String × α)} (h : (entries.map (·.1)).Nodup) {e : String × α}
    (he : e ∈ entries) : (ofList entries).find? e.1 = some e.2 := by
  have hnodup : (keys ⟨entries⟩).Nodup := h
  rw [ofList_eq_overlay, find?_overlay hnodup, find?_empty, Option.or_none, find?]
  exact lookup_of_mem h he

theorem mem_of_mem_insertEntry {key : String} {value : α} {entries : List (String × α)} {e : String × α}
    (h : e ∈ insertEntry key value entries) : e = (key, value) ∨ e ∈ entries := by
  induction entries with
  | nil => exact .inl (List.mem_singleton.1 h)
  | cons first rest ih =>
    rw [insertEntry] at h
    split at h
    · exact List.mem_cons.1 h
    · split at h
      · exact (List.mem_cons.1 h).imp_right (List.mem_cons_of_mem _)
      · rcases List.mem_cons.1 h with rfl | h
        · exact .inr List.mem_cons_self
        · exact (ih h).imp_right (List.mem_cons_of_mem _)

theorem mem_of_mem_ofList {entries : List (String × α)} {e : String × α}
    (h : e ∈ (ofList entries).entries) : e ∈ entries := by
  induction entries using List.reverseRecOn with
  | nil => exact h
  | append_singleton front last ih =>
    rw [ofList, List.foldl_append] at h
    rw [List.mem_append, List.mem_singleton]
    exact (mem_of_mem_insertEntry h).symm.imp_left ih

theorem mem_ofList {entries : List (String × α)} (h : (entries.map (·.1)).Nodup) {e : String × α} :
    e ∈ (ofList entries).entries ↔ e ∈ entries :=
  ⟨mem_of_mem_ofList, fun he => mem_of_find? (find?_ofList h he)⟩

/-- A dictionary in order is known by its entries. -/
theorem Ordered.ext {d d' : Dict α} (h : d.Ordered) (h' : d'.Ordered)
    (hmem : ∀ e, e ∈ d.entries ↔ e ∈ d'.entries) : d = d' := by
  have hperm : d.entries.Perm d'.entries :=
    (List.perm_ext_iff_of_nodup h.nodup_keys.of_map h'.nodup_keys.of_map).2 hmem
  have hentries : d.entries = d'.entries := by
    refine hperm.eq_of_pairwise ?_ (List.pairwise_map.1 h) (List.pairwise_map.1 h')
    intro e e' _ _ hlt hgt
    exact absurd (String.lt_trans hlt hgt) (String.lt_irrefl _)
  exact congrArg Dict.mk hentries

theorem size_ofList {entries : List (String × α)} (h : (entries.map (·.1)).Nodup) :
    (ofList entries).size = entries.length := by
  have hperm : (ofList entries).keys.Perm (entries.map (·.1)) := by
    rw [List.perm_ext_iff_of_nodup (ordered_ofList entries).nodup_keys h]
    intro key
    rw [ofList_eq_overlay, mem_keys_overlay]
    exact or_iff_right List.not_mem_nil
  simpa [keys, size] using hperm.length_eq

end Retrieval.Dict
