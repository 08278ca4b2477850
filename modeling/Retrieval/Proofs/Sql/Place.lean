import Mathlib.Data.Bool.AllAny
import Retrieval.Proofs.Sql.Literal

namespace Retrieval.Sql

inductive Region where
  | text
  | literal
  | comment
  deriving DecidableEq, Repr

/-- Where a reader of SQL is. A comment starts at two dashes and ends with its line, so in plain
text the reader knows whether a dash stands right before it. -/
inductive Place where
  | plain
  | dash
  | literal
  | comment
  deriving DecidableEq, Repr

def BeginsComment (cs : List Char) : Prop :=
  ∃ before after, cs = before ++ '-' :: '-' :: after ∧ '\n' ∉ after

namespace Place

def region : Place → Region
  | .plain | .dash => .text
  | .literal => .literal
  | .comment => .comment

def next : Place → Char → Place
  | .plain, c => if c = '\'' then .literal else if c = '-' then .dash else .plain
  | .dash, c => if c = '\'' then .literal else if c = '-' then .comment else .plain
  | .literal, c => if c = '\'' then .plain else .literal
  | .comment, c => if c = '\n' then .plain else .comment

def read (place : Place) (cs : List Char) : Place :=
  cs.foldl next place

/-- A literal may stand in a place if the reader is behind it where it would be behind a question mark.
In a comment a text may end the line if it begins another comment, and inside of a literal, where its
quotes are the wrong way round, it may begin no comment. -/
def Suits : Place → Literal → Prop
  | .plain, _ => True
  | .dash, l => l.isNegative = false
  | .comment, .text s => '\n' ∈ s.toList → BeginsComment s.toList
  | .literal, .text s => ¬ BeginsComment s.toList
  | .comment, _ | .literal, _ => True

variable {place : Place} {cs : List Char}

@[simp] theorem read_nil (place : Place) : place.read [] = place := rfl

@[simp] theorem read_cons (place : Place) (c : Char) (cs : List Char) :
    place.read (c :: cs) = (place.next c).read cs := rfl

theorem read_append (place : Place) (cs ds : List Char) :
    place.read (cs ++ ds) = (place.read cs).read ds :=
  List.foldl_append

theorem read_comment (h : '\n' ∉ cs) : Place.comment.read cs = .comment := by
  induction cs with
  | nil => rfl
  | cons c rest ih =>
    obtain ⟨hc, hrest⟩ := not_or.1 (mt List.mem_cons.2 h)
    rw [read_cons, next, if_neg (Ne.symm hc), ih hrest]

theorem read_literal (h : '\'' ∉ cs) : Place.literal.read cs = .literal := by
  induction cs with
  | nil => rfl
  | cons c rest ih =>
    obtain ⟨hc, hrest⟩ := not_or.1 (mt List.mem_cons.2 h)
    rw [read_cons, next, if_neg (Ne.symm hc), ih hrest]

theorem read_tame (hp : place.region = .text) (hne : cs ≠ []) (h : ∀ c ∈ cs, c ≠ '\'' ∧ c ≠ '-') :
    place.read cs = .plain := by
  induction cs generalizing place with
  | nil => exact absurd rfl hne
  | cons c rest ih =>
    obtain ⟨⟨hquote, hdash⟩, hrest⟩ := List.forall_mem_cons.1 h
    have hnext : place.next c = .plain := by
      cases place with
      | plain | dash => simp [next, hquote, hdash]
      | literal | comment => cases hp
    rw [read_cons, hnext]
    cases rest with
    | nil => rfl
    | cons d rest => exact ih rfl (by simp) hrest

theorem read_digits (hp : place.region = .text) (h : IsDigits cs) : place.read cs = .plain := by
  apply read_tame hp h.1
  intro c hc
  have hdigit := h.2 c hc
  constructor <;> (rintro rfl; cases hdigit)

/-- The only dash in a magnitude is in its exponent, and digits follow it. -/
theorem read_magnitude (hp : place.region = .text) (h : IsMagnitude cs) : place.read cs = .plain := by
  obtain ⟨hw, hf, he⟩ := h
  have hfront : ∀ {fraction}, IsFraction fraction → Place.plain.read fraction = .plain := by
    intro fraction hf
    cases hf with
    | none => rfl
    | some hd =>
      rw [read_cons]
      exact read_digits rfl hd
  rw [read_append, read_append, read_digits hp hw, hfront hf]
  cases he with
  | none => rfl
  | unsigned hd =>
    rw [read_cons]
    exact read_digits rfl hd
  | signed hs hd =>
    rw [read_cons, read_cons]
    obtain rfl | rfl := hs <;> exact read_digits rfl hd

theorem exists_unsigned {l : Literal} (h : ¬ ∃ s, l = .text s) :
    ∃ body, l.chars = (if l.isNegative then ['-'] else []) ++ body ∧
      (∀ place : Place, place.region = .text → place.read body = .plain) ∧
      '\n' ∉ l.chars ∧ '\'' ∉ l.chars := by
  obtain rfl | htext | ⟨body, hchars, hmagnitude⟩ := l.form
  · have hnull : ∀ c ∈ "NULL".toList, c ≠ '\'' ∧ c ≠ '-' := List.all_iff_forall_prop.1 (by decide)
    exact ⟨_, rfl, fun place hp => read_tame hp (by decide) hnull, by decide⟩
  · exact absurd htext h
  · have hnumeral : ∀ c ∈ l.chars, IsNumeral c := by
      intro c hc
      rw [hchars, List.mem_append] at hc
      obtain hs | hm := hc
      · split at hs
        · exact .inr (by simp [List.mem_singleton.1 hs])
        · cases hs
      · exact hmagnitude.isNumeral hm
    have hmarks : ¬ IsNumeral '\n' ∧ ¬ IsNumeral '\'' := by simp [IsNumeral, Char.isDigit]
    exact ⟨body, hchars, fun place hp => read_magnitude hp hmagnitude,
      hmarks.imp (mt (hnumeral _)) (mt (hnumeral _))⟩

theorem read_quoteChars (hp : place.region = .text) (cs : List Char) :
    place.read (quoteChars cs) = .plain := by
  have hopen : place.next '\'' = .literal := by
    cases place with
    | plain | dash => rfl
    | literal | comment => cases hp
  have hinside : Place.literal.read (doubleQuotes cs) = .literal := by
    induction cs with
    | nil => rfl
    | cons c rest ih =>
      rw [doubleQuotes]
      split
      · exact ih
      · rename_i hc
        rw [read_cons, next, if_neg hc, ih]
  rw [quoteChars, List.cons_append, read_cons, hopen, read_append, hinside]
  rfl

theorem read_plain (l : Literal) : Place.plain.read l.chars = .plain := by
  by_cases h : ∃ s, l = .text s
  · obtain ⟨s, rfl⟩ := h
    exact read_quoteChars rfl _
  · obtain ⟨body, hchars, hbody, _⟩ := exists_unsigned h
    rw [hchars, read_append]
    split
    · exact hbody .dash rfl
    · exact hbody .plain rfl

theorem read_dash (l : Literal) :
    Place.dash.read l.chars = if l.isNegative then .comment else .plain := by
  by_cases h : ∃ s, l = .text s
  · obtain ⟨s, rfl⟩ := h
    exact read_quoteChars rfl _
  · obtain ⟨body, hchars, hbody, hline, _⟩ := exists_unsigned h
    rw [hchars] at hline ⊢
    split
    · rename_i hn
      rw [if_pos hn] at hline
      exact read_comment (mt (List.mem_cons_of_mem _) hline)
    · exact hbody .dash rfl

theorem beginsComment_nil : ¬ BeginsComment [] := by
  rintro ⟨before, after, h, _⟩
  cases before <;> cases h

theorem beginsComment_cons (c : Char) (cs : List Char) : BeginsComment (c :: cs) ↔
    BeginsComment cs ∨ c = '-' ∧ ∃ rest, cs = '-' :: rest ∧ '\n' ∉ rest := by
  constructor
  · rintro ⟨before, after, heq, hline⟩
    cases before with
    | nil =>
      cases heq
      exact .inr ⟨rfl, after, rfl, hline⟩
    | cons d before =>
      cases heq
      exact .inl ⟨before, after, rfl, hline⟩
  · rintro (⟨before, after, rfl, hline⟩ | ⟨rfl, rest, rfl, hline⟩)
    · exact ⟨c :: before, after, rfl, hline⟩
    · exact ⟨[], rest, rfl, hline⟩

/-- Where a reader is behind text between quotes that it does not take for a literal: in a comment exactly
if the text begins one in its last line, or if it was there before and there is no other line. A quote
in the text is doubled, so it makes no difference. -/
theorem read_doubleQuotes (hp : place ≠ .literal) : place.read (doubleQuotes cs) ≠ .literal ∧
    (place.read (doubleQuotes cs) = .comment ↔ BeginsComment cs ∨ place = .comment ∧ '\n' ∉ cs ∨
      place = .dash ∧ ∃ rest, cs = '-' :: rest ∧ '\n' ∉ rest) := by
  induction cs generalizing place with
  | nil => simp [doubleQuotes, hp, beginsComment_nil]
  | cons c rest ih =>
    rw [doubleQuotes, beginsComment_cons]
    split
    · rename_i hc
      subst hc
      cases place with
      | literal => exact absurd rfl hp
      | plain | dash => simpa [next] using @ih .plain (by decide)
      | comment => simpa [next] using @ih .comment (by decide)
    · rename_i hc
      rw [read_cons]
      have hline : (∃ more, rest = '-' :: more ∧ '\n' ∉ more) → '\n' ∉ rest := by
        rintro ⟨more, rfl, hmore⟩
        simpa using hmore
      cases place with
      | literal => exact absurd rfl hp
      | plain =>
        by_cases hd : c = '-'
        · simpa [next, hc, hd] using @ih .dash (by decide)
        · simpa [next, hc, hd] using @ih .plain (by decide)
      | dash =>
        by_cases hd : c = '-'
        · simpa [next, hd, or_assoc, or_iff_right_of_imp hline] using @ih .comment (by decide)
        · simpa [next, hc, hd] using @ih .plain (by decide)
      | comment =>
        by_cases hn : c = '\n'
        · simpa [next, hn] using @ih .plain (by decide)
        · have hdash : (c = '-' ∧ ∃ more, rest = '-' :: more ∧ '\n' ∉ more) → '\n' ∉ rest :=
            fun h => hline h.2
          simpa [next, hn, Ne.symm hn, or_assoc, or_iff_right_of_imp hdash] using @ih .comment (by decide)

theorem next_quote (hp : place ≠ .literal) :
    place.next '\'' = if place = .comment then .comment else .literal := by
  cases place with
  | literal => exact absurd rfl hp
  | _ => rfl

theorem read_comment_text (s : String) : Place.comment.read (Literal.text s).chars =
    if Place.comment.read (doubleQuotes s.toList) = .comment then .comment else .literal := by
  rw [Literal.chars, quoteChars, List.cons_append, read_cons, read_append, read_cons, read_nil]
  exact next_quote (read_doubleQuotes (by decide)).1

theorem read_literal_text (s : String) : Place.literal.read (Literal.text s).chars =
    if Place.plain.read (doubleQuotes s.toList) = .comment then .comment else .literal := by
  rw [Literal.chars, quoteChars, List.cons_append, read_cons, read_append, read_cons, read_nil]
  exact next_quote (read_doubleQuotes (by decide)).1

/-- The literals that suit a place are the ones that the reader leaves as it leaves a question mark. -/
theorem read_eq_next_iff (place : Place) (l : Literal) :
    place.read l.chars = place.next '?' ↔ place.Suits l := by
  cases place with
  | plain => simp [read_plain, next, Suits]
  | dash =>
    rw [read_dash, Suits]
    cases l.isNegative <;> simp [next]
  | comment =>
    by_cases h : ∃ s, l = .text s
    · obtain ⟨s, rfl⟩ := h
      have hcomment := (@read_doubleQuotes .comment s.toList (by decide)).2
      rw [read_comment_text, Suits]
      simp only [true_and, reduceCtorEq, false_and, or_false] at hcomment
      simp [next, hcomment, or_iff_not_imp_right]
    · obtain ⟨_, _, _, hline, _⟩ := exists_unsigned h
      have hsuits : Place.comment.Suits l := by
        cases l <;> first | trivial | exact absurd ⟨_, rfl⟩ h
      simp [read_comment hline, next, hsuits]
  | literal =>
    by_cases h : ∃ s, l = .text s
    · obtain ⟨s, rfl⟩ := h
      have hcomment := (@read_doubleQuotes .plain s.toList (by decide)).2
      rw [read_literal_text, Suits]
      simp only [reduceCtorEq, false_and, or_false] at hcomment
      simp [next, hcomment]
    · obtain ⟨_, _, _, _, hquote⟩ := exists_unsigned h
      have hsuits : Place.literal.Suits l := by
        cases l <;> first | trivial | exact absurd ⟨_, rfl⟩ h
      simp [read_literal hquote, next, hsuits]

theorem read_ne_dash (place : Place) (l : Literal) : place.read l.chars ≠ .dash := by
  by_cases hs : place.Suits l
  · rw [(read_eq_next_iff place l).2 hs]
    cases place <;> decide
  · cases place with
    | plain => exact absurd trivial hs
    | dash =>
      rw [read_dash]
      split <;> decide
    | comment =>
      cases l with
      | text s =>
        rw [read_comment_text]
        split <;> decide
      | _ => exact absurd trivial hs
    | literal =>
      cases l with
      | text s =>
        rw [read_literal_text]
        split <;> decide
      | _ => exact absurd trivial hs

end Place

end Retrieval.Sql
