import Retrieval.Proofs.Except
import Retrieval.Text.Placeholder

namespace Retrieval.Placeholder

/-- A text made of pieces: characters as they are, and for each name a text that stands for it. -/
inductive Filled (stands : String → String → Prop) : List Piece → List Char → Prop
  | nil : Filled stands [] []
  | char {c : Char} {rest : List Piece} {text : List Char} (h : Filled stands rest text) :
      Filled stands (.char c :: rest) (c :: text)
  | name {run : List Char} {s : String} {rest : List Piece} {text : List Char}
      (hs : stands (String.ofList run) s) (h : Filled stands rest text) :
      Filled stands (.name run :: rest) (s.toList ++ text)

theorem Filled.imp {stands stands' : String → String → Prop} {ps : List Piece} {text : List Char}
    (h : Filled stands ps text) (hi : ∀ name s, stands name s → stands' name s) :
    Filled stands' ps text := by
  induction h with
  | nil => exact .nil
  | char _ ih => exact .char ih
  | name hs _ ih => exact .name (hi _ _ hs) ih

theorem Filled.exists_of_mem {stands : String → String → Prop} {ps : List Piece} {text : List Char}
    (h : Filled stands ps text) {name : String} (hn : name ∈ ps.filterMap Piece.name?) :
    ∃ s, stands name s := by
  induction h with
  | nil => cases hn
  | char _ ih => exact ih hn
  | name hs _ ih =>
    rcases List.mem_cons.1 hn with rfl | hn
    · exact ⟨_, hs⟩
    · exact ih hn

def Piece.char? : Piece → Option Char
  | .char c => some c
  | .name _ => none

/-- The characters of a class that stand outside of placeholders. -/
def marks (mark : Char → Bool) (ps : List Piece) : List Char :=
  (ps.filterMap Piece.char?).filter mark

@[simp] theorem marks_append (mark : Char → Bool) (ps qs : List Piece) :
    marks mark (ps ++ qs) = marks mark ps ++ marks mark qs := by
  simp [marks]

/-- A text has the marks of its pieces, if nothing that stands for a name has one. -/
theorem Filled.filter_eq {stands : String → String → Prop} {mark : Char → Bool} {ps : List Piece}
    {text : List Char} (h : Filled stands ps text)
    (hs : ∀ run s, Piece.name run ∈ ps → stands (String.ofList run) s → ∀ c ∈ s.toList, mark c = false) :
    text.filter mark = marks mark ps := by
  induction h with
  | nil => rfl
  | @char c rest text _ ih =>
    have hrest := ih fun run s hr => hs run s (List.mem_cons_of_mem _ hr)
    rw [List.filter_cons, hrest]
    by_cases hc : mark c = true <;> simp [marks, Piece.char?, hc]
  | @name run s rest text hname _ ih =>
    have hrest := ih fun run s hr => hs run s (List.mem_cons_of_mem _ hr)
    have hplain : s.toList.filter mark = [] := by
      rw [List.filter_eq_nil_iff]
      intro c hc
      simp [hs run s List.mem_cons_self hname c hc]
    rw [List.filter_append, hrest, hplain]
    rfl

/-- A class that neither brackets nor the characters of names are in. -/
def Apart (mark : Char → Bool) : Prop :=
  mark '[' = false ∧ mark ']' = false ∧ ∀ c, isNameChar c = true → mark c = false

/-- What is held back is made of the characters of names. -/
def Holds (held : Option (List Char)) : Prop :=
  ∀ run ∈ held, ∀ c ∈ run, isNameChar c = true

theorem holds_none : Holds none := by
  simp [Holds]

theorem holds_nil : Holds (some []) := by
  simp [Holds]

theorem Holds.push {run : List Char} (h : Holds (some run)) {c : Char} (hc : isNameChar c = true) :
    Holds (some (run ++ [c])) := by
  intro longer he d hd
  cases he
  cases List.mem_append.1 hd with
  | inl hmem => exact h run rfl d hmem
  | inr hmem => exact (List.mem_singleton.1 hmem).symm ▸ hc

theorem marks_plain {mark : Char → Bool} (hm : Apart mark) {held : Option (List Char)} (h : Holds held) :
    marks mark (plain held) = [] := by
  cases held with
  | none => rfl
  | some run =>
    rw [marks, List.filter_eq_nil_iff]
    intro c hc
    obtain ⟨piece, hp, hpc⟩ := List.mem_filterMap.1 hc
    rcases List.mem_cons.1 hp with rfl | hr
    · cases hpc
      simp [hm.1]
    · obtain ⟨d, hd, rfl⟩ := List.mem_map.1 hr
      have hdc : d = c := Option.some.inj hpc
      simp [← hdc, hm.2.2 d (h run rfl d hd)]

theorem marks_char (mark : Char → Bool) (c : Char) (ps : List Piece) :
    marks mark (.char c :: ps) = if mark c then c :: marks mark ps else marks mark ps := by
  simp only [marks, List.filterMap_cons, Piece.char?, List.filter_cons]

theorem marks_name (mark : Char → Bool) (run : List Char) (ps : List Piece) :
    marks mark (.name run :: ps) = marks mark ps := rfl

theorem marks_scan {mark : Char → Bool} (hm : Apart mark) {held : Option (List Char)} (h : Holds held)
    (cs : List Char) : marks mark (scan held cs) = cs.filter mark := by
  induction cs generalizing held with
  | nil => exact marks_plain hm h
  | cons c rest ih =>
    rw [List.filter_cons]
    cases held with
    | none =>
      simp only [scan]
      split
      · rename_i hc
        rw [ih holds_nil, hc, hm.1]
        rfl
      · rw [marks_char, ih holds_none]
    | some run =>
      simp only [scan]
      split
      · rename_i hc
        rw [ih (h.push hc), hm.2.2 c hc]
        rfl
      · split
        · rename_i hc
          simp only [Bool.and_eq_true, decide_eq_true_eq] at hc
          rw [marks_name, ih holds_none, hc.1, hm.2.1]
          rfl
        · split
          · rename_i hc
            rw [marks_append, marks_plain hm h, ih holds_nil, hc, hm.1]
            rfl
          · rw [marks_append, marks_plain hm h, marks_char, ih holds_none]
            rfl

theorem marks_pieces {mark : Char → Bool} (hm : Apart mark) (template : String) :
    marks mark (pieces template) = template.toList.filter mark :=
  marks_scan hm holds_none _

theorem name_notMem_plain (held : Option (List Char)) (run : List Char) : Piece.name run ∉ plain held := by
  cases held <;> simp [plain]

theorem isNameChar_of_mem_scan {held : Option (List Char)} (h : Holds held) {cs run : List Char}
    (hr : Piece.name run ∈ scan held cs) : ∀ c ∈ run, isNameChar c = true := by
  induction cs generalizing held with
  | nil => exact absurd hr (name_notMem_plain held run)
  | cons c rest ih =>
    cases held with
    | none =>
      simp only [scan] at hr
      split at hr
      · exact ih holds_nil hr
      · exact ih holds_none (by simpa using hr)
    | some held =>
      simp only [scan] at hr
      split at hr
      · rename_i hc
        exact ih (h.push hc) hr
      · split at hr
        · rcases List.mem_cons.1 hr with he | hr
          · cases he
            exact h run rfl
          · exact ih holds_none hr
        · split at hr
          · exact ih holds_nil ((List.mem_append.1 hr).resolve_left (name_notMem_plain _ _))
          · have hrest := (List.mem_append.1 hr).resolve_left (name_notMem_plain _ _)
            exact ih holds_none (by simpa using hrest)

theorem isNameChar_of_mem_pieces {template : String} {run : List Char}
    (hr : Piece.name run ∈ pieces template) : ∀ c ∈ run, isNameChar c = true :=
  isNameChar_of_mem_scan holds_none hr

variable {ε : Type} {resolve : String → Except ε String}

theorem fill_ok {ps : List Piece} {text : List Char} (h : fill resolve ps = .ok text) :
    Filled (fun name s => resolve name = .ok s) ps text := by
  induction ps generalizing text with
  | nil =>
    cases h
    exact .nil
  | cons p rest ih =>
    cases p with
    | char c =>
      rw [fill, bind_eq_ok] at h
      obtain ⟨tail, ht, h⟩ := h
      cases h
      exact .char (ih ht)
    | name run =>
      rw [fill, bind_eq_ok] at h
      obtain ⟨s, hs, h⟩ := h
      obtain ⟨tail, ht, h⟩ := bind_eq_ok.1 h
      cases h
      exact .name hs (ih ht)

theorem replace_ok {template s : String} (h : replace template resolve = .ok s) :
    Filled (fun name s => resolve name = .ok s) (pieces template) s.toList := by
  rw [replace, bind_eq_ok] at h
  obtain ⟨text, ht, h⟩ := h
  cases h
  rw [String.toList_ofList]
  exact fill_ok ht

theorem Filled.fill_eq_some {lookup : String → Option String} {ps : List Piece} {text : List Char}
    (h : Filled (fun name s => lookup name = some s) ps text) : fill lookup ps = some text := by
  induction h with
  | nil => rfl
  | char _ ih =>
    rw [fill, ih]
    rfl
  | name hs _ ih =>
    rw [fill, hs, ih]
    rfl

theorem replace_eq_some {lookup : String → Option String} {template s : String}
    (h : replace template resolve = .ok s) (hl : ∀ name s, resolve name = .ok s → lookup name = some s) :
    replace template lookup = some s := by
  have hfill := ((replace_ok h).imp hl).fill_eq_some
  rw [replace, hfill]
  exact congrArg some String.ofList_toList

theorem outcome_fill (resolve : String → Except ε String) (ps : List Piece) :
    outcome (fill resolve ps) = (ps.filterMap Piece.name?).forM fun name => outcome (resolve name) := by
  induction ps with
  | nil => rfl
  | cons p rest ih =>
    cases p with
    | char c =>
      rw [fill, List.filterMap_cons_none rfl, ← ih]
      exact outcome_map (fill resolve rest) (c :: ·)
    | name run =>
      have hname : (Piece.name run).name? = some (String.ofList run) := rfl
      rw [fill, List.filterMap_cons_some hname, List.forM, ← ih]
      cases resolve (String.ofList run) with
      | error e => rfl
      | ok text => exact outcome_map (fill resolve rest) (text.toList ++ ·)

theorem outcome_replace (template : String) (resolve : String → Except ε String) :
    outcome (replace template resolve) = (names template).forM fun name => outcome (resolve name) := by
  rw [names, ← outcome_fill]
  exact outcome_map ..

theorem replace_error {template : String} {e : ε} (h : replace template resolve = .error e) :
    ∃ name ∈ names template, resolve name = .error e := by
  have houtcome := outcome_replace template resolve
  rw [h, outcome_error] at houtcome
  obtain ⟨name, hname, he⟩ := exists_of_forM_error houtcome.symm
  exact ⟨name, hname, outcome_eq_error.1 he⟩

end Retrieval.Placeholder
