import Mathlib.Data.Bool.AllAny
import Retrieval.Proofs.Sql.Literal

namespace Retrieval.Sql

/-- A name or a keyword is a word. A text is what its quotes say. -/
inductive Lexeme where
  | word (s : String)
  | number (s : String)
  | text (s : String)
  | symbol (s : String)
  deriving DecidableEq, Repr

def longSymbols : List (List Char) :=
  [['!', '='], ['<', '='], ['>', '='], ['<', '>'], ['=', '='], ['<', '<'], ['>', '>'], ['|', '|'],
    ['-', '-'], ['/', '*'], ['-', '>'], ['-', '>', '>']]

def isSpace (c : Char) : Bool :=
  c ∈ [' ', '\t', '\n', '\x0c', '\r']

def isWordChar (c : Char) : Bool :=
  c.isAlphanum || c == '_' || c == '$' || 0x80 ≤ c.toNat

inductive Fragment where
  | blank
  | word (cs : List Char)
  | number (cs : List Char)
  | text (cs : List Char)
  | closed (cs : List Char)
  | symbol (cs : List Char)
  deriving DecidableEq, Repr

namespace Fragment

def start (c : Char) : Fragment :=
  if isSpace c then .blank
  else if c.isDigit then .number [c]
  else if isWordChar c then .word [c]
  else if c = '\'' then .text []
  else .symbol [c]

/-- The fragment with one more character, if that can belong to it. A sign in a number belongs to an
exponent. -/
def grow? : Fragment → Char → Option Fragment
  | .blank, _ => none
  | .word cs, c => if isWordChar c then some (.word (cs ++ [c])) else none
  | .number cs, c =>
    if isWordChar c || c == '.' || (c == '+' || c == '-') && cs.getLast? == some 'e' then
      some (.number (cs ++ [c]))
    else none
  | .text cs, c => if c = '\'' then some (.closed cs) else some (.text (cs ++ [c]))
  | .closed cs, c => if c = '\'' then some (.text (cs ++ [c])) else none
  | .symbol cs, c => if longSymbols.contains (cs ++ [c]) then some (.symbol (cs ++ [c])) else none

def lexemes? : Fragment → Option (List Lexeme)
  | .blank => some []
  | .word cs => some [.word (String.ofList cs)]
  | .number cs => some [.number (String.ofList cs)]
  | .text _ => none
  | .closed cs => some [.text (String.ofList cs)]
  | .symbol cs => some [.symbol (String.ofList cs)]

def read? (f : Fragment) : List Char → Option (List Lexeme)
  | [] => f.lexemes?
  | c :: rest =>
    match f.grow? c with
    | some f => f.read? rest
    | none => f.lexemes?.bind fun done => ((start c).read? rest).map (done ++ ·)

end Fragment

/-- The lexemes of a text, if it does not end inside of quotes. -/
def lex? (cs : List Char) : Option (List Lexeme) :=
  Fragment.blank.read? cs

example : lex? "t.a<='it''s'AND -1e-7".toList = some [.word "t", .symbol ".", .word "a", .symbol "<=",
    .text "it's", .word "AND", .symbol "-", .number "1e-7"] := by decide +kernel

theorem isWordChar_of_isDigit {c : Char} (h : c.isDigit = true) : isWordChar c = true := by
  simp [isWordChar, Char.isAlphanum, h]

theorem isSpace_of_isWordChar {c : Char} (h : isWordChar c = true) : isSpace c = false := by
  rw [← Bool.not_eq_true]
  intro hc
  rw [isSpace, decide_eq_true_eq] at hc
  have hspaces : ∀ c ∈ [' ', '\t', '\n', '\x0c', '\r'], ¬ isWordChar c = true :=
    List.all_iff_forall_prop.1 (by decide)
  exact hspaces c hc h

@[simp] theorem lex?_nil : lex? [] = some [] := rfl

theorem lex?_cons (c : Char) (rest : List Char) : lex? (c :: rest) = (Fragment.start c).read? rest := by
  simp [lex?, Fragment.read?, Fragment.grow?, Fragment.lexemes?]

@[simp] theorem lex?_space (rest : List Char) : lex? (' ' :: rest) = lex? rest := by
  rw [lex?_cons]
  rfl

namespace Fragment

variable {f : Fragment} {cs ds rest : List Char} {ls : List Lexeme}

theorem read?_of_ends (hl : f.lexemes? = some ls) (h : ∀ c ∈ rest.head?, f.grow? c = none) :
    f.read? rest = (lex? rest).map (ls ++ ·) := by
  cases rest with
  | nil => rw [read?, hl, lex?_nil, Option.map_some, List.append_nil]
  | cons c rest => rw [read?, h c rfl, hl, lex?_cons, Option.bind_some]

theorem read?_word (cs : List Char) (h : ∀ d ∈ ds, isWordChar d = true) (rest : List Char) :
    (word cs).read? (ds ++ rest) = (word (cs ++ ds)).read? rest := by
  induction ds generalizing cs with
  | nil => simp
  | cons d ds ih =>
    obtain ⟨hd, hds⟩ := List.forall_mem_cons.1 h
    simp [read?, grow?, hd, ih _ hds]

theorem read?_digits (cs : List Char) (h : ∀ d ∈ ds, d.isDigit = true) (rest : List Char) :
    (number cs).read? (ds ++ rest) = (number (cs ++ ds)).read? rest := by
  induction ds generalizing cs with
  | nil => simp
  | cons d ds ih =>
    obtain ⟨hd, hds⟩ := List.forall_mem_cons.1 h
    simp [read?, grow?, isWordChar_of_isDigit hd, ih _ hds]

theorem read?_exponent (cs : List Char) (h : IsExponent ds) (rest : List Char) :
    (number cs).read? (ds ++ rest) = (number (cs ++ ds)).read? rest := by
  have hmark : isWordChar 'e' = true := by decide
  cases h with
  | none => simp
  | unsigned hd => simp [read?, grow?, hmark, read?_digits _ hd.2]
  | signed hs hd => obtain rfl | rfl := hs <;> simp [read?, grow?, hmark, read?_digits _ hd.2]

theorem read?_fraction (cs : List Char) (h : IsFraction ds) (rest : List Char) :
    (number cs).read? (ds ++ rest) = (number (cs ++ ds)).read? rest := by
  cases h with
  | none => simp
  | some hd => simp [read?, grow?, read?_digits _ hd.2]

theorem read?_text (cs ds rest : List Char) :
    (text cs).read? (doubleQuotes ds ++ '\'' :: rest) = (closed (cs ++ ds)).read? rest := by
  induction ds generalizing cs with
  | nil => simp [doubleQuotes, read?, grow?]
  | cons d ds ih =>
    rw [doubleQuotes]
    split
    · rename_i hd
      simp [read?, grow?, ih, hd]
    · rename_i hd
      simp [read?, grow?, ih, hd]

end Fragment

def IsWordText (cs : List Char) : Prop :=
  (∃ c rest, cs = c :: rest ∧ c.isDigit = false) ∧ ∀ c ∈ cs, isWordChar c = true

section

variable {cs rest : List Char} {c : Char}

theorem lex?_word (h : IsWordText cs) (hrest : ∀ c ∈ rest.head?, isWordChar c = false) :
    lex? (cs ++ rest) = (lex? rest).map ([.word (String.ofList cs)] ++ ·) := by
  obtain ⟨⟨c, cs, rfl, hdigit⟩, hword⟩ := h
  obtain ⟨hc, hcs⟩ := List.forall_mem_cons.1 hword
  have hstart : Fragment.start c = .word [c] := by
    simp [Fragment.start, isSpace_of_isWordChar hc, hdigit, hc]
  rw [List.cons_append, lex?_cons, hstart, Fragment.read?_word _ hcs]
  apply Fragment.read?_of_ends rfl
  intro d hd
  simp [Fragment.grow?, hrest d hd]

theorem lex?_mark (hc : c ∈ ['(', ')', ',', '.']) (rest : List Char) :
    lex? (c :: rest) = (lex? rest).map ([.symbol (String.ofList [c])] ++ ·) := by
  have hstart : ∀ c ∈ ['(', ')', ',', '.'], Fragment.start c = .symbol [c] :=
    List.all_iff_forall_prop.1 (by decide)
  have hlong : ∀ c ∈ ['(', ')', ',', '.'], ∀ cs ∈ longSymbols, cs.head? ≠ some c :=
    List.all_iff_forall_prop.1 (by decide)
  rw [lex?_cons, hstart c hc]
  apply Fragment.read?_of_ends rfl
  intro d _
  exact if_neg fun hd => hlong c hc _ (List.contains_iff_mem.1 hd) rfl

theorem start_of_isDigit (h : c.isDigit = true) : Fragment.start c = .number [c] := by
  simp [Fragment.start, isSpace_of_isWordChar (isWordChar_of_isDigit h), h]

theorem lex?_magnitude (h : IsMagnitude cs) (rest : List Char) :
    lex? (cs ++ rest) = (Fragment.number cs).read? rest := by
  obtain ⟨hw, hf, he⟩ := h
  obtain ⟨d, ds, rfl, hd, hds⟩ := hw.exists_cons
  rw [List.append_assoc, List.append_assoc, List.cons_append, lex?_cons, start_of_isDigit hd,
    Fragment.read?_digits _ hds, Fragment.read?_fraction _ hf, Fragment.read?_exponent _ he]
  simp

theorem lex?_minus (h : IsMagnitude cs) (rest : List Char) :
    lex? ('-' :: cs ++ rest) = (lex? (cs ++ rest)).map ([.symbol "-"] ++ ·) := by
  have hstart : Fragment.start '-' = .symbol ['-'] := by decide
  rw [List.cons_append, lex?_cons, hstart]
  apply Fragment.read?_of_ends rfl
  intro d hd
  have hdigit : d.isDigit = true := by
    obtain ⟨hw, _, _⟩ := h
    obtain ⟨first, ds, rfl, hfirst, _⟩ := hw.exists_cons
    cases hd
    exact hfirst
  have hlong : ∀ d ∈ longSymbols.flatten, ¬ d.isDigit = true := List.all_iff_forall_prop.1 (by decide)
  exact if_neg fun hd => hlong d (List.mem_flatten.2 ⟨_, List.contains_iff_mem.1 hd, by simp⟩) hdigit

theorem lex?_quoteChars (s rest : List Char) :
    lex? (quoteChars s ++ rest) = (Fragment.closed s).read? rest := by
  rw [quoteChars, List.append_assoc, List.cons_append, lex?_cons]
  exact Fragment.read?_text [] s rest

end

def breakChars : List Char := [' ', ',', ')']

def Breaks (cs : List Char) : Prop :=
  ∀ c ∈ cs.head?, c ∈ breakChars

/-- Characters are read as some lexemes, and leave what follows behind a break as it is. -/
def Spells (cs : List Char) (ls : List Lexeme) : Prop :=
  ∀ rest, Breaks rest → lex? (cs ++ rest) = (lex? rest).map (ls ++ ·)

inductive Trails : List Char → List Lexeme → Prop
  | nil : Trails [] []
  | cons {cs : List Char} {ls : List Lexeme} (h : Spells cs ls) : Trails (' ' :: cs) ls

namespace Spells

variable {cs ds : List Char} {ls ms : List Lexeme}

theorem breaks_nil : Breaks [] := by
  rintro c ⟨⟩

theorem breaks_cons {c : Char} (h : c ∈ breakChars) (rest : List Char) : Breaks (c :: rest) := by
  rintro d ⟨⟩
  exact h

theorem lex? (h : Spells cs ls) : lex? cs = some ls := by
  simpa using h [] breaks_nil

theorem of_read? {f : Fragment} (hf : ∀ rest, Sql.lex? (cs ++ rest) = f.read? rest)
    (hl : f.lexemes? = some ls) (h : ∀ c ∈ breakChars, f.grow? c = none) : Spells cs ls := by
  intro rest hrest
  rw [hf]
  exact Fragment.read?_of_ends hl fun c hc => h c (hrest c hc)

theorem word (h : IsWordText cs) : Spells cs [.word (String.ofList cs)] := by
  intro rest hrest
  apply lex?_word h
  intro c hc
  have hbreaks : ∀ c ∈ breakChars, isWordChar c = false := List.all_iff_forall_prop.1 (by decide)
  exact hbreaks c (hrest c hc)

theorem magnitude (h : IsMagnitude cs) : Spells cs [.number (String.ofList cs)] := by
  apply of_read? (lex?_magnitude h) rfl
  intro c hc
  have hbreaks : ∀ c ∈ breakChars, isWordChar c = false ∧ c ∉ ['.', '+', '-'] :=
    List.all_iff_forall_prop.1 (by decide)
  obtain ⟨hword, hpart⟩ := hbreaks c hc
  simp only [List.mem_cons, List.not_mem_nil, or_false, not_or] at hpart
  simp [Fragment.grow?, hword, hpart]

theorem minus (h : IsMagnitude cs) : Spells ('-' :: cs) [.symbol "-", .number (String.ofList cs)] := by
  intro rest hrest
  rw [lex?_minus h, magnitude h rest hrest]
  cases Sql.lex? rest <;> rfl

theorem quoteChars (s : String) : Spells (quoteChars s.toList) [.text s] := by
  apply of_read? (lex?_quoteChars s.toList) (by simp [Fragment.lexemes?])
  intro c hc
  have hbreaks : ∀ c ∈ breakChars, c ≠ '\'' := List.all_iff_forall_prop.1 (by decide)
  exact if_neg (hbreaks c hc)

theorem column (hc : IsWordText cs) (hd : IsWordText ds) :
    Spells (cs ++ '.' :: ds) [.word (String.ofList cs), .symbol ".", .word (String.ofList ds)] := by
  intro rest hrest
  rw [List.append_assoc, List.cons_append, lex?_word hc (by rintro c ⟨⟩; decide), lex?_mark (by decide),
    word hd rest hrest]
  cases Sql.lex? rest <;> rfl

theorem group (h : Spells cs ls) : Spells ('(' :: cs ++ [')']) (.symbol "(" :: ls ++ [.symbol ")"]) := by
  intro rest hrest
  rw [List.append_assoc, List.cons_append, lex?_mark (by decide), List.singleton_append,
    h _ (breaks_cons (by decide) rest), lex?_mark (by decide)]
  cases Sql.lex? rest <;> simp

theorem trail (h : Spells cs ls) (ht : Trails ds ms) : Spells (cs ++ ds) (ls ++ ms) := by
  cases ht with
  | nil => simpa using h
  | cons hd =>
    intro rest hrest
    rw [List.append_assoc, List.cons_append, h _ (breaks_cons (by decide) _), lex?_space, hd rest hrest]
    cases Sql.lex? rest <;> simp

theorem comma (h : Spells cs ls) (hd : Spells ds ms) :
    Spells (cs ++ ',' :: ' ' :: ds) (ls ++ .symbol "," :: ms) := by
  intro rest hrest
  rw [List.append_assoc, List.cons_append, h _ (breaks_cons (by decide) _), lex?_mark (by decide),
    List.cons_append, lex?_space, hd rest hrest]
  cases Sql.lex? rest <;> simp

end Spells

theorem Trails.append {cs ds : List Char} {ls ms : List Lexeme} (hc : Trails cs ls) (hd : Trails ds ms) :
    Trails (cs ++ ds) (ls ++ ms) := by
  cases hc with
  | nil => exact hd
  | cons h => exact .cons (h.trail hd)

end Retrieval.Sql
