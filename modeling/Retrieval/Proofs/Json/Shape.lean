import Retrieval.Json.Shape
import Retrieval.Proofs.Json.RoundTrip

namespace Retrieval.Json.Shape

variable {α : Type} {shape : Shape α} {room : Nat}

/-- However the members of a value are ordered, it is read as `a`. -/
def ReadsAs (shape : Shape α) (room : Nat) (v : Json) (a : α) : Prop :=
  ∀ v', v.Reordered v' → shape room v'.tree = some a

theorem string_readsAs (s : String) : Shape.string.ReadsAs room (.string s) s := by
  intro v' hr
  cases hr
  rfl

theorem integer_readsAs {least bound n : Int} (hn : Int64.minValue.toInt ≤ n ∧ n < UInt64.size)
    (hb : least ≤ n ∧ n < bound) : (Shape.integer least bound).ReadsAs room (.int n) n := by
  intro v' hr
  cases hr
  have hnumber : Shape.number room (Json.int n).tree = some (.int n) := (Number.readsBack_int hn).number?
  rw [Json.int] at hnumber
  rw [Shape.integer, hnumber]
  exact if_pos hb

theorem value_readsAs {v : Json} (h : v.Fits Number.ReadsBack room) : Shape.value.ReadsAs room v v :=
  fun _ hr => h.value?_tree hr

theorem tree_ne_null {v v' : Json} (hr : v.Reordered v') (h : v ≠ .null) : v'.tree ≠ .null := by
  cases hr with
  | null => exact absurd rfl h
  | _ => simp [tree]

theorem option_readsAs {f : α → Json} (hf : ∀ a, f a ≠ .null) (h : ∀ a, shape.ReadsAs room (f a) a)
    (a? : Option α) : (Shape.option shape).ReadsAs room (.ofOption f a?) a? := by
  intro v' hr
  cases a? with
  | none =>
    cases hr
    rfl
  | some a =>
    unfold Shape.option
    split
    · rename_i hnull
      exact absurd hnull (tree_ne_null hr (hf a))
    · rw [h a v' hr, Option.map_some]

theorem mapM_itemTrees {items : List α} {vs : List Json}
    (h : List.Forall₂ (fun a v => shape room v.tree = some a) items vs) :
    (itemTrees vs).mapM (shape room) = some items := by
  induction h with
  | nil => rfl
  | cons ha _ ih =>
    rw [itemTrees, List.mapM_cons, ha, ih]
    rfl

theorem list_readsAs {f : α → Json} {items : List α} (h : ∀ a ∈ items, shape.ReadsAs room (f a) a) :
    (Shape.list shape).ReadsAs (room + 1) (.array (items.map f)) items := by
  intro v' hr
  cases hr with
  | array hitems =>
    rw [List.forall₂_map_left_iff] at hitems
    have hread := ((List.forall₂_and_left _ _).2 ⟨h, hitems⟩).imp fun a v h => h.1 v h.2
    simpa [Shape.list, tree] using mapM_itemTrees hread

theorem dict_readsAs {f : α → Json} {d : Dict α} (ho : d.Ordered)
    (h : ∀ e ∈ d.entries, shape.ReadsAs room (f e.2) e.2) :
    (Shape.dict shape).ReadsAs (room + 1) (.ofDict (d.map fun _ a => f a)) d := by
  intro v' hr
  cases hr with
  | @object _ members hkeys hvalues =>
    have hlisted : (members.map (·.1)).Perm (d.map fun _ a => f a).keys := hkeys
    rw [Dict.keys_map] at hlisted
    have hread : ∀ key a v, (key, a) ∈ d.entries → (key, v) ∈ members → shape room v.tree = some a := by
      intro key a v ha hv
      exact h _ ha v (hvalues key _ v (List.mem_map_of_mem ha) hv)
    obtain ⟨entries, hentries, hdict⟩ := exists_entries ho hlisted hread
    simp [Shape.dict, tree, hentries, hdict]

/-- The members of a value are found under their names, however they are ordered. -/
structure Fields.Holds (f : Fields) (room : Nat) (members : List (String × Json)) : Prop where
  room_eq : f.room = room
  found : ∀ key v, (key, v) ∈ members → ∃ v', v.Reordered v' ∧ f.present.lookup key = some v'.tree

theorem collect_memberTrees {known : List String} {members : List (String × Json)}
    (hnodup : (members.map (·.1)).Nodup) (hknown : ∀ key ∈ members.map (·.1), key ∈ known) :
    collect known (memberTrees members) = some (members.map fun m => (m.1, m.2.tree)) := by
  induction members with
  | nil => rfl
  | cons m rest ih =>
    rw [List.map_cons, List.nodup_cons] at hnodup
    rw [List.map_cons, List.forall_mem_cons] at hknown
    have hnew : (rest.map fun m => (m.1, m.2.tree)).lookup m.1 = none := by
      rw [List.lookup_eq_none_iff]
      intro e he
      obtain ⟨m', hm', rfl⟩ := List.mem_map.1 he
      rw [bne_iff_ne]
      exact fun hkey => hnodup.1 (hkey ▸ List.mem_map_of_mem hm')
    simp [memberTrees, collect, ih hnodup.2 hknown.2, hknown.1, hnew]

theorem exists_fields (room : Nat) {known : List String} {members : List (String × Json)} {v' : Json}
    (hr : (Json.object members).Reordered v') (hnodup : (members.map (·.1)).Nodup)
    (hknown : ∀ key ∈ members.map (·.1), key ∈ known) :
    ∃ f, Shape.fields known (room + 1) v'.tree = some f ∧ f.Holds room members := by
  cases hr with
  | @object _ members' hkeys hvalues =>
    have hnodup' : (members'.map (·.1)).Nodup := hkeys.nodup_iff.2 hnodup
    have hcollect := collect_memberTrees hnodup' fun key hkey => hknown key (hkeys.mem_iff.1 hkey)
    refine ⟨⟨room, members'.map fun m => (m.1, m.2.tree)⟩, by simp [tree, fields, hcollect], rfl, ?_⟩
    intro key v hv
    obtain ⟨⟨_, v'⟩, hv', rfl⟩ := List.mem_map.1 (hkeys.mem_iff.2 (List.mem_map_of_mem hv))
    have hpresent : (_, v'.tree) ∈ members'.map fun m => (m.1, m.2.tree) := List.mem_map_of_mem hv'
    exact ⟨v', hvalues _ _ _ hv hv', Dict.lookup_of_mem (by rwa [List.map_map]) hpresent⟩

theorem Fields.Holds.default {f : Fields} {members : List (String × Json)} (h : f.Holds room members) (key : String)
    {v : Json} {a : α} (absent : α) (hv : (key, v) ∈ members) (hs : shape.ReadsAs room v a) :
    f.default key shape absent = some a := by
  obtain ⟨v', hr, hfound⟩ := h.found key v hv
  rw [Fields.default, hfound, h.room_eq]
  exact hs v' hr

theorem Fields.Holds.required {f : Fields} {members : List (String × Json)} (h : f.Holds room members) (key : String)
    {v : Json} {a : α} (hv : (key, v) ∈ members) (hs : shape.ReadsAs room v a) :
    f.required key shape = some a := by
  obtain ⟨v', hr, hfound⟩ := h.found key v hv
  rw [Fields.required, hfound, h.room_eq]
  exact hs v' hr

theorem ordered_dict {t : Tree} {d : Dict α} (h : Shape.dict shape room t = some d) : d.Ordered := by
  unfold dict at h
  split at h
  · split at h
    · cases h
    · obtain ⟨entries, _, rfl⟩ := Option.map_eq_some_iff.1 h
      exact Dict.ordered_ofList entries
  · cases h

theorem fields_room {known : List String} {t : Tree} {f : Fields} (h : Shape.fields known room t = some f) :
    room = f.room + 1 := by
  unfold Shape.fields at h
  split at h
  · split at h
    · cases h
    · obtain ⟨present, _, rfl⟩ := Option.map_eq_some_iff.1 h
      dsimp only
      omega
  · split at h
    · cases h
    · rename_i hroom
      cases h
      simp only [Bool.or_eq_true, decide_eq_true_eq, not_or] at hroom
      dsimp only
      omega
  · cases h

theorem exists_of_mem_mapM {β : Type} {f : β → Option α} {ts : List β} {items : List α}
    (h : ts.mapM f = some items) {a : α} (ha : a ∈ items) : ∃ t, f t = some a := by
  induction ts generalizing items with
  | nil =>
    cases h
    cases ha
  | cons t ts ih =>
    simp only [List.mapM_cons, Option.bind_eq_bind, Option.bind_eq_some_iff, Option.pure_def,
      Option.some.injEq] at h
    obtain ⟨first, hfirst, rest, hrest, rfl⟩ := h
    rcases List.mem_cons.1 ha with rfl | ha
    · exact ⟨t, hfirst⟩
    · exact ih hrest ha

theorem mem_of_list {t : Tree} {items : List α} (h : Shape.list shape room t = some items) {a : α}
    (ha : a ∈ items) : ∃ r t', room = r + 1 ∧ shape r t' = some a := by
  unfold Shape.list at h
  split at h
  · split at h
    · cases h
    · rename_i hroom
      obtain ⟨t', ht'⟩ := exists_of_mem_mapM h ha
      exact ⟨_, t', (Nat.succ_pred_eq_of_ne_zero hroom).symm, ht'⟩
  · cases h

end Retrieval.Json.Shape
