import Retrieval.Proofs.Json.Tree

namespace Retrieval.Json

mutual

def tree : Json → Tree
  | .null => .null
  | .bool b => .bool b
  | .number n => .number n.numeral
  | .string s => .string (some s)
  | .array items => .array (itemTrees items)
  | .object members => .object (memberTrees members)

def itemTrees : List Json → List Tree
  | [] => []
  | v :: rest => v.tree :: itemTrees rest

def memberTrees : List (String × Json) → List (Option String × Tree)
  | [] => []
  | (key, v) :: rest => (some key, v.tree) :: memberTrees rest

end

mutual

def numbers : Json → List Number
  | .null | .bool _ | .string _ => []
  | .number n => [n]
  | .array items => itemNumbers items
  | .object members => memberNumbers members

def itemNumbers : List Json → List Number
  | [] => []
  | v :: rest => v.numbers ++ itemNumbers rest

def memberNumbers : List (String × Json) → List Number
  | [] => []
  | (_, v) :: rest => v.numbers ++ memberNumbers rest

end

/-- A value with at most `room` nested containers, with the members of its objects in order, and with
numbers of one kind. -/
inductive Fits (p : Number → Prop) : Nat → Json → Prop
  | null {room : Nat} : Fits p room .null
  | bool {room : Nat} (b : Bool) : Fits p room (.bool b)
  | number {room : Nat} {n : Number} (h : p n) : Fits p room (.number n)
  | string {room : Nat} (s : String) : Fits p room (.string s)
  | array {room : Nat} {items : List Json} (h : ∀ v ∈ items, Fits p room v) : Fits p (room + 1) (.array items)
  | object {room : Nat} {members : List (String × Json)} (ho : (Dict.mk members).Ordered)
      (h : ∀ m ∈ members, Fits p room m.2) : Fits p (room + 1) (.object members)

/-- A value with the members of its objects in another order. -/
inductive Reordered : Json → Json → Prop
  | null : Reordered .null .null
  | bool (b : Bool) : Reordered (.bool b) (.bool b)
  | number (n : Number) : Reordered (.number n) (.number n)
  | string (s : String) : Reordered (.string s) (.string s)
  | array {items items' : List Json} (h : List.Forall₂ Reordered items items') :
      Reordered (.array items) (.array items')
  | object {members members' : List (String × Json)} (hkeys : (members'.map (·.1)).Perm (members.map (·.1)))
      (h : ∀ key v v', (key, v) ∈ members → (key, v') ∈ members' → Reordered v v') :
      Reordered (.object members) (.object members')

variable {p q : Number → Prop} {room : Nat} {v v' : Json}

theorem mem_itemNumbers {items : List Json} (hv : v ∈ items) {n : Number} (hn : n ∈ v.numbers) :
    n ∈ itemNumbers items := by
  induction items with
  | nil => cases hv
  | cons first rest ih =>
    rw [itemNumbers, List.mem_append]
    rcases List.mem_cons.1 hv with rfl | hv
    · exact .inl hn
    · exact .inr (ih hv)

theorem mem_memberNumbers {members : List (String × Json)} {m : String × Json} (hm : m ∈ members) {n : Number}
    (hn : n ∈ m.2.numbers) : n ∈ memberNumbers members := by
  induction members with
  | nil => cases hm
  | cons first rest ih =>
    rw [memberNumbers, List.mem_append]
    rcases List.mem_cons.1 hm with rfl | hm
    · exact .inl hn
    · exact .inr (ih hm)

theorem Fits.imp (h : v.Fits p room) (hpq : ∀ n ∈ v.numbers, p n → q n) : v.Fits q room := by
  induction h with
  | null => exact .null
  | bool b => exact .bool b
  | number hn => exact .number (hpq _ (List.mem_singleton.2 rfl) hn)
  | string s => exact .string s
  | array _ ih => exact .array fun v hv => ih v hv fun n hn => hpq n (mem_itemNumbers hv hn)
  | object ho _ ih => exact .object ho fun m hm => ih m hm fun n hn => hpq n (mem_memberNumbers hm hn)

theorem fits_ofOption {α : Type} {f : α → Json} (hf : ∀ a, (f a).Fits p room)
    (a? : Option α) : (ofOption f a?).Fits p room := by
  cases a? with
  | none => exact .null
  | some a => exact hf a

theorem fits_ofDict {α : Type} {f : α → Json} {d : Dict α} (ho : d.Ordered)
    (hf : ∀ a, (f a).Fits p room) : (ofDict (d.map fun _ a => f a)).Fits p (room + 1) := by
  refine .object ?_ ?_
  · rw [Dict.Ordered, Dict.keys_map]
    exact ho
  · intro m hm
    obtain ⟨e, _, rfl⟩ := List.mem_map.1 hm
    exact hf e.2

theorem Fits.reordered (h : v.Fits p room) : v.Reordered v := by
  induction h with
  | null => exact .null
  | bool b => exact .bool b
  | @number _ n _ => exact .number n
  | string s => exact .string s
  | array _ ih => exact .array (List.forall₂_same.2 ih)
  | object ho _ ih =>
    refine .object (.refl _) fun key v v' hv hv' => ?_
    cases List.inj_on_of_nodup_map ho.nodup_keys hv hv' rfl
    exact ih _ hv

theorem exists_member {members members' : List (String × Json)}
    (hkeys : (members'.map (·.1)).Perm (members.map (·.1))) {m : String × Json} (hm : m ∈ members') :
    ∃ v, (m.1, v) ∈ members := by
  obtain ⟨⟨_, v⟩, hv, rfl⟩ := List.mem_map.1 (hkeys.mem_iff.1 (List.mem_map_of_mem hm))
  exact ⟨v, hv⟩

theorem Reordered.of_found {members members' : List (String × Json)}
    (hkeys : (members'.map (·.1)).Perm (members.map (·.1))) (hnodup : (members'.map (·.1)).Nodup)
    (h : ∀ m ∈ members, ∃ v', (m.1, v') ∈ members' ∧ m.2.Reordered v') :
    (Json.object members).Reordered (.object members') := by
  refine .object hkeys fun key v v' hv hv' => ?_
  obtain ⟨w, hw, hr⟩ := h _ hv
  cases List.inj_on_of_nodup_map hnodup hv' hw rfl
  exact hr

theorem reordered_int (n : Int) : (int n).Reordered (int n) :=
  .number _

theorem reordered_ofOption {α : Type} {f : α → Json} (hf : ∀ a, (f a).Reordered (f a)) (a? : Option α) :
    (ofOption f a?).Reordered (ofOption f a?) := by
  cases a? with
  | none => exact .null
  | some a => exact hf a

section Reads

open Token

theorem reads_itemChars {items : List Json} (h : ∀ v ∈ items, Reads v.chars v.tree.tokens) :
    Reads (itemChars items) (Tree.itemTokens (itemTrees items)) := by
  induction items with
  | nil => exact reads_nil
  | cons v rest ih =>
    rw [List.forall_mem_cons] at h
    cases rest with
    | nil => exact h.1
    | cons v' rest =>
      have hrest := ih h.2
      rw [itemTrees] at hrest
      rw [itemTrees, itemTrees, Tree.itemTokens_cons_cons]
      exact h.1.comma hrest

theorem reads_memberChars {members : List (String × Json)} (h : ∀ m ∈ members, Reads m.2.chars m.2.tree.tokens) :
    Reads (memberChars members) (Tree.memberTokens (memberTrees members)) := by
  induction members with
  | nil => exact reads_nil
  | cons m rest ih =>
    obtain ⟨key, v⟩ := m
    rw [List.forall_mem_cons] at h
    have hkey := reads_stringChars key
    cases rest with
    | nil => exact hkey.colon h.1
    | cons m' rest =>
      obtain ⟨key', v'⟩ := m'
      have hrest := ih h.2
      rw [memberTrees] at hrest
      rw [memberTrees, memberTrees, Tree.memberTokens_cons_cons]
      have hentry := hkey.colon (h.1.comma hrest)
      simpa [memberChars] using hentry

/-- A written value is read as the tokens of its tree, in whatever order its members are written. -/
theorem Fits.reads_chars (h : v.Fits Number.ReadsBack room) (hr : v.Reordered v') :
    Reads v'.chars v'.tree.tokens := by
  induction h generalizing v' with
  | null =>
    cases hr
    exact reads_null
  | bool b =>
    cases hr
    cases b with
    | true => exact reads_true
    | false => exact reads_false
  | number hn =>
    cases hr
    exact reads_numeral hn.ofChars? fun c hc => isNumeralChar_of_mem_chars hc
  | string s =>
    cases hr
    exact reads_stringChars s
  | array _ ih =>
    cases hr with
    | array hitems =>
      rw [chars, tree, Tree.tokens]
      refine reads_nil.mark rfl ((reads_itemChars fun v' hv' => ?_).mark rfl reads_nil)
      obtain ⟨v, hv, hr⟩ := exists_mem_left hitems hv'
      exact ih v hv hr
  | object _ _ ih =>
    cases hr with
    | object hkeys hvalues =>
      rw [chars, tree, Tree.tokens]
      refine reads_nil.mark rfl ((reads_memberChars fun m hm => ?_).mark rfl reads_nil)
      obtain ⟨v, hv⟩ := exists_member hkeys hm
      exact ih _ hv (hvalues _ _ _ hv hm)

end Reads

theorem Fits.ofChars?_chars (h : v.Fits Number.ReadsBack room) (hr : v.Reordered v') :
    Tree.ofChars? v'.chars = some v'.tree := by
  rw [Tree.ofChars?, (h.reads_chars hr).ofChars?, Option.bind_some, Tree.ofTokens?_tokens]

theorem items?_itemTrees {items items' : List Json}
    (h : List.Forall₂ (fun v v' => v'.tree.value? room = some v) items items') :
    Tree.items? room (itemTrees items') = some items := by
  induction h with
  | nil => rfl
  | cons hv _ ih => simp only [itemTrees, Tree.items?, hv, ih]

theorem members?_eq_mapM (room : Nat) (ms : List (Option String × Tree)) : Tree.members? room ms =
    ms.mapM fun m => m.1.bind fun key => (m.2.value? room).map fun v => (key, v) := by
  induction ms with
  | nil => rfl
  | cons m rest ih =>
    obtain ⟨key, t⟩ := m
    rw [List.mapM_cons, ← ih]
    cases key with
    | none => rfl
    | some key =>
      cases hv : t.value? room <;> cases hrest : Tree.members? room rest <;> simp [Tree.members?, hv, hrest]

section Entries

variable {α : Type} {read : Tree → Option α} {d : Dict α} {members : List (String × Json)}

theorem mapM_memberTrees (h : ∀ m ∈ members, ∃ a, (m.1, a) ∈ d.entries ∧ read m.2.tree = some a) :
    ∃ entries, (memberTrees members).mapM (fun m => m.1.bind fun key => (read m.2).map fun a => (key, a)) =
        some entries ∧ entries.map (·.1) = members.map (·.1) ∧ ∀ e ∈ entries, e ∈ d.entries := by
  induction members with
  | nil => exact ⟨[], rfl, rfl, fun _ he => (List.not_mem_nil he).elim⟩
  | cons m rest ih =>
    rw [List.forall_mem_cons] at h
    obtain ⟨⟨a, ha, hread⟩, hrest⟩ := h
    obtain ⟨entries, hentries, hkeys, hmem⟩ := ih hrest
    refine ⟨(m.1, a) :: entries, ?_, by rw [List.map_cons, hkeys, List.map_cons],
      List.forall_mem_cons.2 ⟨ha, hmem⟩⟩
    rw [memberTrees, List.mapM_cons, Option.bind_some, hread, hentries]
    rfl

/-- Members that are read under their keys, in whatever order, are the entries of a dictionary. -/
theorem exists_entries (ho : d.Ordered) (hkeys : (members.map (·.1)).Perm d.keys)
    (h : ∀ key a v, (key, a) ∈ d.entries → (key, v) ∈ members → read v.tree = some a) :
    ∃ entries, (memberTrees members).mapM (fun m => m.1.bind fun key => (read m.2).map fun a => (key, a)) =
        some entries ∧ Dict.ofList entries = d := by
  have hread : ∀ m ∈ members, ∃ a, (m.1, a) ∈ d.entries ∧ read m.2.tree = some a := by
    intro m hm
    obtain ⟨⟨_, a⟩, ha, rfl⟩ := List.mem_map.1 (hkeys.mem_iff.1 (List.mem_map_of_mem hm))
    exact ⟨a, ha, h _ _ _ ha hm⟩
  obtain ⟨entries, hentries, hlisted, hmem⟩ := mapM_memberTrees hread
  have hnodup : (entries.map (·.1)).Nodup := by
    rw [hlisted, hkeys.nodup_iff]
    exact ho.nodup_keys
  refine ⟨entries, hentries, (Dict.ordered_ofList entries).ext ho fun e => ?_⟩
  rw [Dict.mem_ofList hnodup]
  refine ⟨hmem e, fun he => ?_⟩
  -- the key of an entry stands among the members, and no other entry has it
  have hkey : e.1 ∈ entries.map (·.1) := by
    rw [hlisted, hkeys.mem_iff]
    exact Dict.mem_keys_of_mem he
  obtain ⟨e', he', hsame⟩ := List.mem_map.1 hkey
  rw [← List.inj_on_of_nodup_map ho.nodup_keys (hmem e' he') he hsame]
  exact he'

end Entries

theorem Fits.value?_tree (h : v.Fits Number.ReadsBack room) (hr : v.Reordered v') :
    v'.tree.value? room = some v := by
  induction h generalizing v' with
  | null | bool | string =>
    cases hr
    rfl
  | number hn =>
    cases hr
    rw [tree, Tree.value?, hn.number?, Option.map_some]
  | array _ ih =>
    cases hr with
    | array hitems =>
      have hread := ((List.forall₂_and_left _ _).2 ⟨ih, hitems⟩).imp fun v v' h => h.1 h.2
      simp [tree, Tree.value?, items?_itemTrees hread]
  | @object room members ho _ ih =>
    cases hr with
    | @object _ members' hkeys hvalues =>
      obtain ⟨entries, hentries, hdict⟩ := exists_entries ho hkeys fun key v v' hv hv' =>
        ih (key, v) hv (hvalues key v v' hv hv')
      simp [tree, Tree.value?, members?_eq_mapM, hentries, hdict, ofDict]

mutual

/-- The numbers of a value that is read are what numerals stand for. -/
theorem fits_of_value? {room : Nat} {t : Tree} {v : Json} (h : t.value? room = some v) :
    v.Fits Number.IsDenoted room := by
  match t with
  | .null =>
    cases h
    exact .null
  | .bool b =>
    cases h
    exact .bool b
  | .number k =>
    obtain ⟨n, hn, rfl⟩ := Option.map_eq_some_iff.1 h
    exact .number ⟨k, hn⟩
  | .string content =>
    obtain ⟨s, _, rfl⟩ := Option.map_eq_some_iff.1 h
    exact .string s
  | .array items =>
    rw [Tree.value?] at h
    split at h
    · cases h
    · rename_i hroom
      obtain ⟨vs, hvs, rfl⟩ := Option.map_eq_some_iff.1 h
      obtain ⟨room, rfl⟩ := Nat.exists_eq_succ_of_ne_zero hroom
      exact .array (fits_of_items? hvs)
  | .object members =>
    rw [Tree.value?] at h
    split at h
    · cases h
    · rename_i hroom
      obtain ⟨es, hes, rfl⟩ := Option.map_eq_some_iff.1 h
      obtain ⟨room, rfl⟩ := Nat.exists_eq_succ_of_ne_zero hroom
      exact .object (Dict.ordered_ofList es) fun m hm => fits_of_members? hes m (Dict.mem_of_mem_ofList hm)

theorem fits_of_items? {room : Nat} {ts : List Tree} {vs : List Json} (h : Tree.items? room ts = some vs) :
    ∀ v ∈ vs, v.Fits Number.IsDenoted room := by
  match ts with
  | [] =>
    cases h
    exact fun _ hv => (List.not_mem_nil hv).elim
  | t :: ts =>
    rw [Tree.items?] at h
    split at h
    · rename_i v vs hv hvs
      cases h
      exact List.forall_mem_cons.2 ⟨fits_of_value? hv, fits_of_items? hvs⟩
    · cases h

theorem fits_of_members? {room : Nat} {ms : List (Option String × Tree)} {es : List (String × Json)}
    (h : Tree.members? room ms = some es) :
    ∀ e ∈ es, e.2.Fits Number.IsDenoted room := by
  match ms with
  | [] =>
    cases h
    exact fun _ he => (List.not_mem_nil he).elim
  | (none, t) :: ms => cases h
  | (some key, t) :: ms =>
    cases hv : t.value? room with
    | none => simp [Tree.members?, hv] at h
    | some v =>
      cases hes : Tree.members? room ms with
      | none => simp [Tree.members?, hv, hes] at h
      | some rest =>
        simp only [Tree.members?, hv, hes, Option.some.injEq] at h
        subst h
        exact List.forall_mem_cons.2 ⟨fits_of_value? hv, fits_of_members? hes⟩

end

end Retrieval.Json
