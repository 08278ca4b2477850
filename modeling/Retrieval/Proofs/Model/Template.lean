import Retrieval.Proofs.Model.Binding

namespace Retrieval

namespace Positional

variable {quoted : Bool} {cs first : List Char} {rest : List (List Char)}

/-- A text cut at its question marks outside of single quotes. It begins inside of quotes if it is `quoted`. -/
structure Cut (quoted : Bool) (cs first : List Char) (rest : List (List Char)) : Prop where
  text : cs = first ++ rest.flatMap ('?' :: ·)
  marks : ∀ before after, cs = before ++ '?' :: after →
    ((before.count '\'' % 2 == 1) = quoted ↔
      ∃ k < rest.length, before = first ++ (rest.take k).flatMap ('?' :: ·))

def texts : List Piece → List Char × List (List Char)
  | [] => ([], [])
  | .char c :: rest => (c :: (texts rest).1, (texts rest).2)
  | .hole :: rest => ([], (texts rest).1 :: (texts rest).2)

theorem exists_cons_iff {c : Char} {before : List Char} :
    (∃ k < rest.length, c :: before = (c :: first) ++ (rest.take k).flatMap ('?' :: ·)) ↔
      ∃ k < rest.length, before = first ++ (rest.take k).flatMap ('?' :: ·) := by
  simp only [List.cons_append, List.cons.injEq, true_and]

theorem odd_count_quote (before : List Char) :
    (('\'' :: before).count '\'' % 2 == 1) = !(before.count '\'' % 2 == 1) := by
  rw [List.count_cons_self]
  rcases Nat.mod_two_eq_zero_or_one (before.count '\'') with h | h
  · simp [Nat.add_mod, h]
  · simp [Nat.add_mod, h]

theorem Cut.quote (h : Cut (!quoted) cs first rest) : Cut quoted ('\'' :: cs) ('\'' :: first) rest where
  text := by rw [h.text, List.cons_append]
  marks := by
    intro before after hsplit
    cases before with
    | nil => cases hsplit
    | cons c before =>
      obtain ⟨rfl, htail⟩ := List.cons.inj hsplit
      rw [exists_cons_iff, ← h.marks before after htail, odd_count_quote, Bool.not_eq_eq_eq_not]

theorem Cut.char (h : Cut quoted cs first rest) {c : Char} (hquote : c ≠ '\'') (hmark : c = '?' → quoted = true) :
    Cut quoted (c :: cs) (c :: first) rest where
  text := by rw [h.text, List.cons_append]
  marks := by
    intro before after hsplit
    cases before with
    | nil =>
      obtain ⟨rfl, _⟩ := List.cons.inj hsplit
      rw [hmark rfl]
      simp
    | cons c' before =>
      obtain ⟨rfl, htail⟩ := List.cons.inj hsplit
      rw [exists_cons_iff, ← h.marks before after htail, List.count_cons_of_ne hquote]

theorem Cut.hole (h : Cut false cs first rest) : Cut false ('?' :: cs) [] (first :: rest) where
  text := by rw [h.text, List.flatMap_cons, List.nil_append, List.cons_append]
  marks := by
    intro before after hsplit
    cases before with
    | nil => exact ⟨fun _ => ⟨0, by simp, rfl⟩, fun _ => rfl⟩
    | cons c before =>
      obtain ⟨rfl, htail⟩ := List.cons.inj hsplit
      rw [List.count_cons_of_ne (by decide), h.marks before after htail]
      constructor
      · rintro ⟨k, hk, rfl⟩
        exact ⟨k + 1, Nat.succ_lt_succ hk, rfl⟩
      · rintro ⟨k, hk, he⟩
        cases k with
        | zero => cases he
        | succ k => exact ⟨k, Nat.lt_of_succ_lt_succ hk, (List.cons.inj he).2⟩

theorem cut_texts (quoted : Bool) (cs : List Char) :
    Cut quoted cs (texts (scan quoted cs)).1 (texts (scan quoted cs)).2 := by
  induction cs generalizing quoted with
  | nil => exact ⟨rfl, by simp⟩
  | cons c rest ih =>
    rw [scan]
    by_cases hquote : c = '\''
    · rw [if_pos hquote, hquote]
      exact (ih (!quoted)).quote
    · rw [if_neg hquote]
      by_cases hhole : c = '?' ∧ quoted = false
      · obtain ⟨rfl, rfl⟩ := hhole
        exact (ih false).hole
      · rw [if_neg (by simpa using hhole)]
        refine (ih quoted).char hquote ?_
        intro hmark
        simpa [hmark] using hhole

theorem length_texts (ps : List Piece) : (texts ps).2.length = holes ps := by
  induction ps with
  | nil => rfl
  | cons p rest ih =>
    cases p with
    | char c => rw [texts, ih, holes_cons_char]
    | hole => rw [texts, List.length_cons, ih, holes_cons_hole]

theorem fill_texts {ps : List Piece} {values : List String} (h : values.length = (texts ps).2.length) :
    fill ps values =
      (texts ps).1 ++ (List.zipWith (fun value text => value.toList ++ text) values (texts ps).2).flatten := by
  induction ps generalizing values with
  | nil => simp [fill, texts]
  | cons p rest ih =>
    cases p with
    | char c => rw [fill, ih h, texts, List.cons_append]
    | hole =>
      cases values with
      | nil => cases h
      | cons value values =>
        rw [fill, ih (Nat.succ.inj h), texts, List.nil_append, List.zipWith_cons_cons, List.flatten_cons,
          List.append_assoc]

end Positional

namespace QueryTemplate

open Positional

variable {q : QueryTemplate} {inputs : List Json} {sql : String}

def Takes (pair : Parameter × Json) : Prop :=
  ∃ l, pair.1.field.literal pair.2 = .ok l

theorem exists_literals {name : String} {index : Nat} {pairs : List (Parameter × Json)} :
    (∃ values, literals name index pairs = .ok values) ↔ ∀ pair ∈ pairs, Takes pair := by
  constructor
  · rintro ⟨values, h⟩
    obtain ⟨ls, hls, _⟩ := literals_ok h
    exact exists_forall₂.1 ⟨ls, hls⟩
  · intro h
    induction pairs generalizing index with
    | nil => exact ⟨[], rfl⟩
    | cons pair rest ih =>
      obtain ⟨⟨l, hl⟩, hrest⟩ := List.forall_mem_cons.1 h
      obtain ⟨values, hvalues⟩ := @ih (index + 1) hrest
      exact ⟨l.sql :: values, by rw [literals, hl]; simp [hvalues, Except.map]⟩

theorem literals_refused {name : String} {index : Nat} {before after : List (Parameter × Json)}
    {parameter : Parameter} {input : Json} {cause : Field.Error} (hbefore : ∀ pair ∈ before, Takes pair)
    (h : parameter.field.literal input = .error cause) :
    literals name index (before ++ (parameter, input) :: after) =
      .error (.invalidValue (name ++ "[" ++ toString (index + before.length) ++ "]") cause) := by
  induction before generalizing index with
  | nil =>
    rw [List.nil_append, literals, h]
    rfl
  | cons pair rest ih =>
    obtain ⟨⟨l, hl⟩, hrest⟩ := List.forall_mem_cons.1 hbefore
    rw [List.cons_append, literals, hl]
    simp only [ih hrest, Except.map, List.length_cons]
    congr 5
    omega

/-- How a template with some texts around its question marks is filled in. -/
structure Binds (q : QueryTemplate) (first : List Char) (rest : List (List Char)) (inputs : List Json) : Prop where
  succeeds : (∃ sql, q.bind inputs = .ok sql) ↔
    inputs.length = q.parameters.length ∧ ∀ pair ∈ q.parameters.zip inputs, Takes pair
  mismatch : inputs.length ≠ q.parameters.length →
    q.bind inputs = .error (.parameterCount inputs.length q.parameters.length)
  refused : inputs.length = q.parameters.length → ∀ before parameter input after cause,
    q.parameters.zip inputs = before ++ (parameter, input) :: after → (∀ pair ∈ before, Takes pair) →
      parameter.field.literal input = .error cause →
        q.bind inputs = .error (.invalidValue (q.name ++ "[" ++ toString before.length ++ "]") cause)
  written : ∀ sql, q.bind inputs = .ok sql → ∃ ls, q.Writes inputs ls ∧
    sql.toList = first ++ (List.zipWith (fun l text => l.chars ++ text) ls rest).flatten ∧ count sql = 0

theorem written_of_bind {ls : List Sql.Literal} (hlength : ls.length = (texts (pieces q.template)).2.length) :
    (replace q.template (ls.map (·.sql))).toList = (texts (pieces q.template)).1 ++
      (List.zipWith (fun l text => l.chars ++ text) ls (texts (pieces q.template)).2).flatten := by
  have hvalues : (ls.map (·.sql)).length = (texts (pieces q.template)).2.length := by rw [List.length_map, hlength]
  rw [replace, String.toList_ofList, fill_texts hvalues, List.zipWith_map_left]
  simp only [Sql.Literal.sql, String.toList_ofList]

/-- A template that is loaded has a question mark for each parameter. Its statements have a literal in the place
of each, and ask for nothing more. -/
theorem binds_of_template {types : FieldTypes} {name : String} {d : TemplateDocument}
    (h : Load.template types name d = .ok q) :
    ∃ first rest, Cut false q.template.toList first rest ∧ rest.length = q.parameters.length ∧
      ∀ inputs, q.Binds first rest inputs := by
  have hcount := (Load.template_describes h).questionMarks
  rw [← count_eq_questionMarks] at hcount
  have hrest : (texts (pieces q.template)).2.length = q.parameters.length := by
    rw [length_texts, ← hcount]
    rfl
  refine ⟨_, _, cut_texts false q.template.toList, hrest, ?_⟩
  intro inputs
  have hequal : inputs.length = q.parameters.length →
      q.bind inputs = (literals q.name 0 (q.parameters.zip inputs)).map (replace q.template) := by
    intro hlength
    rw [bind, if_neg (not_not.2 hlength)]
  constructor
  case mismatch =>
    intro hlength
    rw [bind, if_pos hlength]
  case succeeds =>
    constructor
    · rintro ⟨sql, hsql⟩
      obtain ⟨hlength, ls, hls, _⟩ := bind_ok hsql
      exact ⟨hlength, exists_forall₂.1 ⟨ls, hls⟩⟩
    · rintro ⟨hlength, htakes⟩
      obtain ⟨values, hvalues⟩ := exists_literals.2 htakes
      exact ⟨_, by rw [hequal hlength, hvalues]; rfl⟩
  case refused =>
    intro hlength before parameter input after cause hsplit hbefore hrefused
    rw [hequal hlength, hsplit, literals_refused hbefore hrefused, Nat.zero_add]
    rfl
  case written =>
    intro sql hsql
    have hmarks := questionMarks_of_bind hsql
    obtain ⟨hlength, ls, hls, rfl⟩ := bind_ok hsql
    have hwritten : ls.length = (texts (pieces q.template)).2.length := by
      rw [hrest, ← hls.length_eq, List.length_zip, hlength, Nat.min_self]
    refine ⟨ls, hls, written_of_bind hwritten, ?_⟩
    rw [count_eq_questionMarks, hmarks, ← count_eq_questionMarks, hcount, Nat.sub_self]

def quotedQuery : TemplateDocument :=
  ⟨"SELECT '?', 'it''s ?', ? FROM post WHERE title = ?", [.ofType "string", .ofType "string"], ⟨[]⟩⟩

theorem binds_quotedQuery : ∃ q, Load.template .builtin "quoted" quotedQuery = .ok q ∧
    (∃ first rest, Cut false q.template.toList first rest ∧ rest.length = q.parameters.length ∧
      ∀ inputs, q.Binds first rest inputs) ∧
    q.bind [.string "who?", .string "'?'"] =
      .ok "SELECT '?', 'it''s ?', 'who?' FROM post WHERE title = '''?'''" := by
  obtain ⟨q, hq, h⟩ := exists_of_passes (show passes (fun q => passes
      (· == "SELECT '?', 'it''s ?', 'who?' FROM post WHERE title = '''?'''") (q.bind [.string "who?", .string "'?'"]))
    (Load.template .builtin "quoted" quotedQuery) = true by decide +kernel)
  obtain ⟨sql, hsql, h⟩ := exists_of_passes h
  rw [beq_iff_eq.1 h] at hsql
  exact ⟨q, hq, binds_of_template hq, hsql⟩

end QueryTemplate

end Retrieval
