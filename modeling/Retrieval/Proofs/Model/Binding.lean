import Mathlib.Data.List.Induction
import Retrieval.Proofs.Model.Loading
import Retrieval.Proofs.Sql.Place
import Retrieval.Proofs.Text.Positional

namespace Retrieval

open Sql

namespace Positional

def Piece.source : Piece → Char
  | .char c => c
  | .hole => '?'

def holes (pieces : List Piece) : Nat :=
  pieces.countP (· == .hole)

/-- A character stands in a statement behind some text, where the reader of that text is in a region. -/
def Stands (sql : String) (before : List Char) (c : Char) (region : Region) : Prop :=
  before ++ [c] <+: sql.toList ∧ (Place.plain.read before).region = region

/-- All characters of a template but the question marks that are filled stand in the same region before and
after. -/
def KeepsRegions (template : String) (values : List String) : Prop :=
  ∀ before c after, pieces template = before ++ .char c :: after → ∃ region,
    Stands template (before.map Piece.source) c region ∧
      Stands (replace template values) (fill before values) c region

/-- Each literal suits the place of its question mark, unless it is the end of the statement. -/
def Suited (template : String) (ls : List Literal) : Prop :=
  ∀ before after l, pieces template = before ++ .hole :: after → after ≠ [] →
    ls[holes before]? = some l → (Place.plain.read (before.map Piece.source)).Suits l

/-- No two question marks to fill stand side by side. -/
def Scattered (template : String) : Prop :=
  ∀ before after, pieces template ≠ before ++ .hole :: .hole :: after

theorem map_source_scan (quoted : Bool) (cs : List Char) : (scan quoted cs).map Piece.source = cs := by
  induction cs generalizing quoted with
  | nil => rfl
  | cons c rest ih =>
    rw [scan]
    split
    · rw [List.map_cons, ih]
      rfl
    · split
      · rename_i hc
        simp only [Bool.and_eq_true, decide_eq_true_eq] at hc
        rw [List.map_cons, ih, hc.1]
        rfl
      · rw [List.map_cons, ih]
        rfl

theorem map_source_pieces (template : String) : (pieces template).map Piece.source = template.toList :=
  map_source_scan false _

theorem holes_append (xs ys : List Piece) : holes (xs ++ ys) = holes xs + holes ys :=
  List.countP_append

@[simp] theorem holes_cons_char (c : Char) (rest : List Piece) : holes (.char c :: rest) = holes rest := by
  simp [holes]

@[simp] theorem holes_cons_hole (rest : List Piece) : holes (.hole :: rest) = holes rest + 1 := by
  simp [holes]

theorem holes_map_char (cs : List Char) : holes (cs.map .char) = 0 := by
  induction cs with
  | nil => rfl
  | cons c rest ih => rw [List.map_cons, holes_cons_char, ih]

theorem fill_append (xs ys : List Piece) (values : List String) :
    fill (xs ++ ys) values = fill xs values ++ fill ys (values.drop (holes xs)) := by
  induction xs generalizing values with
  | nil => rfl
  | cons piece rest ih =>
    cases piece with
    | char c => rw [holes_cons_char, List.cons_append, fill, fill, ih, List.cons_append]
    | hole =>
      rw [holes_cons_hole, List.cons_append]
      cases values with
      | nil => simp [fill, ih]
      | cons value values => simp [fill, ih]

theorem fill_char (before : List Piece) (c : Char) (values : List String) :
    fill (before ++ [.char c]) values = fill before values ++ [c] := by
  rw [fill_append]
  rfl

theorem fill_hole (before : List Piece) (ls : List Literal) :
    fill (before ++ [.hole]) (ls.map (·.sql)) = fill before (ls.map (·.sql)) ++
      (ls[holes before]?).elim ['?'] (·.chars) := by
  rw [fill_append, ← List.map_drop, ← List.head?_drop]
  cases ls.drop (holes before) with
  | nil => rfl
  | cons l rest => simp [fill, Literal.sql]

variable {template : String} {ls : List Literal} {before after : List Piece}

theorem stands_template {c : Char} (h : pieces template = before ++ .char c :: after) :
    Stands template (before.map Piece.source) c (Place.plain.read (before.map Piece.source)).region := by
  refine ⟨⟨after.map Piece.source, ?_⟩, rfl⟩
  rw [← map_source_pieces, h]
  simp [Piece.source]

theorem stands_replace {c : Char} (h : pieces template = before ++ .char c :: after)
    (values : List String) : Stands (replace template values) (fill before values) c
      (Place.plain.read (fill before values)).region := by
  refine ⟨⟨fill after (values.drop (holes before)), ?_⟩, rfl⟩
  rw [replace, String.toList_ofList, h, fill_append, List.append_assoc]
  rfl

/-- The reader of the filled template is where the reader of the template is, up to the end. -/
def KeepsPlaces (template : String) (values : List String) : Prop :=
  ∀ before after, pieces template = before ++ after → after ≠ [] →
    Place.plain.read (fill before values) = Place.plain.read (before.map Piece.source)

theorem read_hole_iff (place : Place) (l? : Option Literal) :
    place.read (l?.elim ['?'] (·.chars)) = place.next '?' ↔ ∀ l, l? = some l → place.Suits l := by
  cases l? with
  | none => simp
  | some l => simpa using place.read_eq_next_iff l

theorem keepsPlaces_of_suited (h : Suited template ls) : KeepsPlaces template (ls.map (·.sql)) := by
  intro before
  induction before using List.reverseRecOn with
  | nil => intros; rfl
  | append_singleton before piece ih =>
    intro after heq hafter
    rw [List.append_assoc, List.singleton_append] at heq
    have hbefore := ih _ heq (List.cons_ne_nil _ _)
    rw [List.map_append, Place.read_append, ← hbefore]
    cases piece with
    | char c =>
      rw [fill_char, Place.read_append]
      rfl
    | hole =>
      rw [fill_hole, Place.read_append, hbefore]
      exact (read_hole_iff _ _).2 fun l hl => h before after l heq hafter hl

theorem KeepsPlaces.keepsRegions {values : List String} (h : KeepsPlaces template values) :
    KeepsRegions template values := by
  intro before c after heq
  refine ⟨_, stands_template heq, ?_⟩
  rw [← h before _ heq (List.cons_ne_nil _ _)]
  exact stands_replace heq values

/-- Only the two places of plain text are in one region. -/
theorem region_injective {p q : Place} (hp : p ≠ .dash) (hq : q ≠ .dash) (h : p.region = q.region) :
    p = q := by
  cases p <;> cases q <;> first | rfl | contradiction

/-- A place can differ only behind a literal, and there it tells the region of the next character. -/
theorem KeepsRegions.keepsPlaces (hs : Scattered template) (h : KeepsRegions template (ls.map (·.sql))) :
    KeepsPlaces template (ls.map (·.sql)) := by
  intro before
  induction before using List.reverseRecOn with
  | nil => intros; rfl
  | append_singleton before piece ih =>
    intro after heq hafter
    rw [List.append_assoc, List.singleton_append] at heq
    have hbefore := ih _ heq (List.cons_ne_nil _ _)
    cases piece with
    | char c =>
      rw [fill_char, List.map_append, Place.read_append, Place.read_append, hbefore]
      rfl
    | hole =>
      obtain ⟨next, after, rfl⟩ := List.exists_cons_of_ne_nil hafter
      cases next with
      | hole => exact absurd heq (hs before after)
      | char c =>
        obtain ⟨region, ⟨_, hsource⟩, _, hfill⟩ := h (before ++ [.hole]) c after (by simpa using heq)
        apply region_injective _ _ (hfill.trans hsource.symm)
        · rw [fill_hole, Place.read_append]
          cases ls[holes before]? with
          | none => cases Place.plain.read (fill before (ls.map (·.sql))) <;> decide
          | some l => exact Place.read_ne_dash _ l
        · rw [List.map_append, Place.read_append]
          cases Place.plain.read (before.map Piece.source) <;> decide

theorem KeepsPlaces.suited (h : KeepsPlaces template (ls.map (·.sql))) : Suited template ls := by
  intro before after l heq hafter hl
  have hbefore := h before _ heq (List.cons_ne_nil _ _)
  have hhole := h (before ++ [.hole]) after (by simpa using heq) hafter
  rw [fill_hole, List.map_append, Place.read_append, Place.read_append, hbefore] at hhole
  exact (read_hole_iff _ _).1 hhole l hl

theorem keepsRegions_iff (hs : Scattered template) :
    KeepsRegions template (ls.map (·.sql)) ↔ Suited template ls :=
  ⟨fun h => (h.keepsPlaces hs).suited, fun h => (keepsPlaces_of_suited h).keepsRegions⟩

theorem scan_tame {cs : List Char} (h : ∀ c ∈ cs, c ≠ '\'' ∧ c ≠ '?') (rest : List Char) :
    scan false (cs ++ rest) = cs.map .char ++ scan false rest := by
  induction cs with
  | nil => rfl
  | cons c cs ih =>
    obtain ⟨⟨hquote, hmark⟩, htame⟩ := List.forall_mem_cons.1 h
    rw [List.cons_append, scan, if_neg hquote, if_neg (by simp [hmark]), ih htame]
    rfl

theorem scan_doubleQuotes (cs rest : List Char) :
    scan true (doubleQuotes cs ++ rest) = (doubleQuotes cs).map .char ++ scan true rest := by
  induction cs with
  | nil => rfl
  | cons c cs ih =>
    rw [doubleQuotes]
    split
    · rw [List.cons_append, List.cons_append, scan, if_pos rfl, scan, if_pos rfl, Bool.not_true, Bool.not_false,
        ih]
      rfl
    · rename_i hquote
      rw [List.cons_append, scan, if_neg hquote, if_neg (by simp), ih]
      rfl

/-- A literal brings no hole, and what follows it is looked through as if it were not there. -/
theorem scan_literal (l : Literal) (rest : List Char) :
    scan false (l.chars ++ rest) = l.chars.map .char ++ scan false rest := by
  have htame : ∀ c, IsNumeral c → c ≠ '\'' ∧ c ≠ '?' := by
    have hmarks : ¬ IsNumeral '\'' ∧ ¬ IsNumeral '?' := by simp [IsNumeral, Char.isDigit]
    exact fun c hc => ⟨fun h => hmarks.1 (h ▸ hc), fun h => hmarks.2 (h ▸ hc)⟩
  cases l with
  | null =>
    have hnull : ∀ c ∈ Literal.null.chars, c ≠ '\'' ∧ c ≠ '?' := by simp [Literal.chars, Literal.bare]
    exact scan_tame hnull rest
  | integer n => exact scan_tame (fun c hc => htame c (Layout.isNumeral_of_mem_intChars hc)) rest
  | real x => exact scan_tame (fun c hc => htame c (Layout.isNumeral_of_mem_write hc)) rest
  | text s =>
    rw [Literal.chars, quoteChars, List.cons_append, List.cons_append, scan, if_pos rfl, List.append_assoc,
      Bool.not_false, scan_doubleQuotes, List.cons_append, List.nil_append, scan, if_pos rfl, Bool.not_true]
    simp

theorem holes_scan_fill (quoted : Bool) (cs : List Char) (ls : List Literal) :
    holes (scan quoted (fill (scan quoted cs) (ls.map (·.sql)))) = holes (scan quoted cs) - ls.length := by
  induction cs generalizing quoted ls with
  | nil => simp [scan, fill, holes]
  | cons c rest ih =>
    rw [scan]
    split
    · rename_i hquote
      rw [fill, scan, if_pos hquote, holes_cons_char, holes_cons_char, ih]
    · rename_i hquote
      split
      · rename_i hhole
        obtain ⟨rfl, hplain⟩ : c = '?' ∧ quoted = false := by simpa using hhole
        subst hplain
        rw [holes_cons_hole]
        cases ls with
        | nil =>
          have hrest := ih false []
          rw [List.map_nil] at hrest ⊢
          rw [fill, scan, if_neg (by decide), if_pos (by decide), holes_cons_hole, hrest]
          rfl
        | cons l ls =>
          rw [List.map_cons, fill, Literal.sql, String.toList_ofList, scan_literal, holes_append, holes_map_char,
            ih, List.length_cons]
          omega
      · rename_i hhole
        rw [fill, scan, if_neg hquote, if_neg hhole, holes_cons_char, holes_cons_char, ih]

theorem questionMarks_replace (template : String) (ls : List Literal) :
    questionMarks (replace template (ls.map (·.sql))) = questionMarks template - ls.length := by
  rw [← count_eq_questionMarks, ← count_eq_questionMarks, count, count, pieces, replace, String.toList_ofList]
  exact holes_scan_fill false template.toList ls

end Positional

namespace QueryTemplate

open Positional

variable {q : QueryTemplate} {inputs : List Json} {sql : String}

/-- The literals of inputs, each by the type of its parameter. -/
def Writes (q : QueryTemplate) (inputs : List Json) (ls : List Literal) : Prop :=
  List.Forall₂ (fun p l => p.1.field.literal p.2 = .ok l) (q.parameters.zip inputs) ls

theorem literals_ok {name : String} {index : Nat} {pairs : List (Parameter × Json)} {values : List String}
    (h : literals name index pairs = .ok values) :
    ∃ ls, List.Forall₂ (fun p l => p.1.field.literal p.2 = .ok l) pairs ls ∧ values = ls.map (·.sql) := by
  induction pairs generalizing index values with
  | nil =>
    cases h
    exact ⟨[], .nil, rfl⟩
  | cons pair rest ih =>
    rw [literals] at h
    split at h
    · cases h
    · rename_i l hl
      obtain ⟨others, hothers, rfl⟩ := map_eq_ok.1 h
      obtain ⟨ls, hls, rfl⟩ := ih hothers
      exact ⟨l :: ls, .cons hl hls, rfl⟩

theorem bind_ok (h : q.bind inputs = .ok sql) : inputs.length = q.parameters.length ∧
    ∃ ls, q.Writes inputs ls ∧ sql = replace q.template (ls.map (·.sql)) := by
  unfold bind at h
  split at h
  · cases h
  · rename_i hlength
    obtain ⟨values, hvalues, rfl⟩ := map_eq_ok.1 h
    obtain ⟨ls, hls, rfl⟩ := literals_ok hvalues
    exact ⟨not_not.1 hlength, ls, hls, rfl⟩

theorem questionMarks_of_bind (h : q.bind inputs = .ok sql) :
    questionMarks sql = questionMarks q.template - q.parameters.length := by
  obtain ⟨hlength, ls, hls, rfl⟩ := bind_ok h
  have hcount := hls.length_eq
  rw [List.length_zip, hlength, Nat.min_self] at hcount
  rw [questionMarks_replace, hcount]

/-- No input changes how the rest of a statement is read if its literals suit their places, and, where no
two question marks stand side by side, only then. -/
theorem keepsRegions_of_bind (h : q.bind inputs = .ok sql) :
    ∃ ls, q.Writes inputs ls ∧ sql = replace q.template (ls.map (·.sql)) ∧
      (Suited q.template ls → KeepsRegions q.template (ls.map (·.sql))) ∧
      (Scattered q.template → KeepsRegions q.template (ls.map (·.sql)) → Suited q.template ls) := by
  obtain ⟨_, ls, hls, hsql⟩ := bind_ok h
  exact ⟨ls, hls, hsql, fun hs => (keepsPlaces_of_suited hs).keepsRegions,
    fun hs hkeeps => (keepsRegions_iff hs).1 hkeeps⟩

def postQueries : ModelDocument where
  collections := ⟨[]⟩
  templates := ⟨[
    ("below", ⟨"SELECT id FROM post WHERE score < 5 -? AND draft = 0", [.ofType "int"], ⟨[]⟩⟩),
    ("titled", ⟨"SELECT id FROM post WHERE title = ? AND draft = 0", [.ofType "string"], ⟨[]⟩⟩)]⟩
  hooks := []

theorem keepsRegions_titled : ∃ m q sql, Model.ofDocument .builtin postQueries = .ok m ∧
    m.template "titled" = .ok q ∧ q.bind [.string "x' OR 1=1 --"] = .ok sql ∧
    (∃ ls, q.Writes [.string "x' OR 1=1 --"] ls ∧ sql = replace q.template (ls.map (·.sql)) ∧
      (Suited q.template ls → KeepsRegions q.template (ls.map (·.sql))) ∧
      (Scattered q.template → KeepsRegions q.template (ls.map (·.sql)) → Suited q.template ls)) ∧
    sql = "SELECT id FROM post WHERE title = 'x'' OR 1=1 --' AND draft = 0" := by
  obtain ⟨m, hl, h⟩ := exists_of_passes (show passes (fun m => passes (fun q =>
      passes (fun sql => sql = "SELECT id FROM post WHERE title = 'x'' OR 1=1 --' AND draft = 0")
        (q.bind [.string "x' OR 1=1 --"]))
    (m.template "titled")) (Model.ofDocument .builtin postQueries) = true by decide +kernel)
  obtain ⟨q, hq, h⟩ := exists_of_passes h
  obtain ⟨sql, hsql, h⟩ := exists_of_passes h
  exact ⟨m, q, sql, hl, hq, hsql, keepsRegions_of_bind hsql, of_decide_eq_true h⟩

/-- The sign of a negative number makes a comment of the dash before it and all that follows. -/
theorem not_keepsRegions_below : ∃ m q ls, Model.ofDocument .builtin postQueries = .ok m ∧
    m.template "below" = .ok q ∧ q.Writes [.int (-1)] ls ∧
    q.bind [.int (-1)] = .ok "SELECT id FROM post WHERE score < 5 --1 AND draft = 0" ∧
    ¬ KeepsRegions q.template (ls.map (·.sql)) := by
  obtain ⟨m, hl, h⟩ := exists_of_passes (show passes (fun m => passes (fun q =>
      decide (q.template = "SELECT id FROM post WHERE score < 5 -? AND draft = 0") &&
        decide (q.parameters.map (·.field) = [.int]) &&
        passes (fun sql => sql = "SELECT id FROM post WHERE score < 5 --1 AND draft = 0")
          (q.bind [.int (-1)]))
    (m.template "below")) (Model.ofDocument .builtin postQueries) = true by decide +kernel)
  obtain ⟨q, hq, h⟩ := exists_of_passes h
  simp only [Bool.and_eq_true, decide_eq_true_eq] at h
  obtain ⟨⟨htemplate, hfields⟩, h⟩ := h
  obtain ⟨parameter, hparameter, hfield⟩ := List.map_eq_singleton_iff.1 hfields
  obtain ⟨sql, hsql, h⟩ := exists_of_passes h
  rw [of_decide_eq_true h] at hsql
  refine ⟨m, q, [.integer (-1)], hl, hq, ?_, hsql, ?_⟩
  · rw [Writes, hparameter]
    exact .cons (by rw [hfield]; rfl) .nil
  · rw [htemplate]
    intro hkeeps
    let before := (pieces "SELECT id FROM post WHERE score < 5 -? AND draft = 0").take 38
    let after := (pieces "SELECT id FROM post WHERE score < 5 -? AND draft = 0").drop 39
    obtain ⟨region, ⟨_, htext⟩, _, hcomment⟩ := hkeeps before ' ' after (by decide +kernel)
    have htext' : (Place.plain.read (before.map Piece.source)).region = .text := by decide +kernel
    have hcomment' : (Place.plain.read (fill before ["-1"])).region = .comment := by decide +kernel
    rw [htext', ← hcomment] at htext
    exact absurd (htext.trans hcomment') (by decide)

end QueryTemplate

end Retrieval
