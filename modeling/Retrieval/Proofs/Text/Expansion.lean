import Mathlib.Data.List.TakeWhile
import Retrieval.Proofs.Except
import Retrieval.Proofs.Text.Words
import Retrieval.Settings.Basic

namespace Retrieval.Expansion

/-- A run of characters of a class that could not be longer. -/
structure Longest (p : Char → Bool) (run rest : List Char) : Prop where
  nonempty : run ≠ []
  inside : ∀ c ∈ run, p c = true
  behind : ∀ c ∈ rest.head?, p c = false

/-- A part of a text: characters without a dollar sign, a name in braces, of which the closing one may be missing, a
name without braces, or a dollar sign of its own. -/
inductive Part where
  | plain (text : List Char)
  | braced (name : List Char) (closed : Bool)
  | bare (name : List Char)
  | dollar

namespace Part

def written : Part → List Char
  | plain text => text
  | braced name closed => '$' :: Text.openBrace :: name ++ if closed then [Text.closeBrace] else []
  | bare name => '$' :: name
  | dollar => ['$']

def name? : Part → Option String
  | braced name _ | bare name => some (String.ofList name)
  | plain _ | dollar => none

/-- Where a part ends. Names in braces go on up to the next closing brace, if there is one. -/
def Fits : Part → List Char → Prop
  | plain text, rest => Longest (· != '$') text rest
  | braced name closed, rest => Text.closeBrace ∉ name ∧ (closed = false → rest = [])
  | bare name, rest => Longest isNameChar name rest
  | dollar, rest => ∀ c ∈ rest.head?, c ≠ Text.openBrace ∧ isNameChar c = false

def pieces : Part → List Piece
  | plain text => text.map .char
  | braced name _ | bare name => [.var name]
  | dollar => [.char '$']

/-- What stands for a part: the value of its name, or itself if it is no name. -/
def read (value : String → Option String) (part : Part) : Except String (List Char) :=
  match part.name? with
  | none => .ok part.written
  | some name =>
    match value name with
    | none => .error name
    | some text => .ok text.toList

def reference : List Char → Part × List Char
  | [] => (dollar, [])
  | c :: rest =>
    if c = Text.openBrace then
      match Text.cutAt? Text.closeBrace rest with
      | some (name, behind) => (braced name true, behind)
      | none => (braced rest false, [])
    else if isNameChar c then
      (bare ((c :: rest).takeWhile isNameChar), (c :: rest).dropWhile isNameChar)
    else (dollar, c :: rest)

def first (c : Char) (cs : List Char) : Part × List Char :=
  if c = '$' then reference cs
  else (plain ((c :: cs).takeWhile (· != '$')), (c :: cs).dropWhile (· != '$'))

end Part

/-- A text cut into parts from left to right. -/
inductive Splits : List Char → List Part → Prop
  | nil : Splits [] []
  | cons {cs rest : List Char} {part : Part} {parts : List Part} (hcs : cs = part.written ++ rest)
      (hfits : part.Fits rest) (hrest : Splits rest parts) : Splits cs (part :: parts)

variable {p : Char → Bool} {c : Char} {cs run rest : List Char} {part : Part} {parts : List Part}

theorem ne_openBrace (h : isNameChar c = true) : c ≠ Text.openBrace := by
  rintro rfl
  exact absurd h (by decide +kernel)

theorem Longest.takeWhile (h : Longest p run rest) : (run ++ rest).takeWhile p = run := by
  rw [List.takeWhile_append_of_pos h.inside]
  cases rest with
  | nil => exact List.append_nil run
  | cons c rest => rw [List.takeWhile_cons_of_neg (by simp [h.behind c rfl]), List.append_nil]

theorem Longest.dropWhile (h : Longest p run rest) : (run ++ rest).dropWhile p = rest := by
  rw [List.dropWhile_append_of_pos h.inside]
  cases rest with
  | nil => rfl
  | cons c rest => rw [List.dropWhile_cons_of_neg (by simp [h.behind c rfl])]

theorem longest_takeWhile (hc : p c = true) (cs : List Char) :
    Longest p ((c :: cs).takeWhile p) ((c :: cs).dropWhile p) where
  nonempty := by simp [hc]
  inside := fun _ hd => List.mem_takeWhile_imp hd
  behind := by
    intro d hd
    have hnot := List.head?_dropWhile_not p (c :: cs)
    rw [Option.mem_def] at hd
    rwa [hd] at hnot

namespace Part

theorem written_ne_nil (h : part.Fits rest) : part.written ≠ [] := by
  cases part with
  | plain text => exact h.nonempty
  | _ => simp [written]

theorem reference_fits (cs : List Char) : '$' :: cs = (reference cs).1.written ++ (reference cs).2 ∧
    (reference cs).1.Fits (reference cs).2 := by
  cases cs with
  | nil => exact ⟨rfl, by simp [reference, Fits]⟩
  | cons c rest =>
    rw [reference]
    split
    · rename_i hopen
      subst hopen
      split
      · rename_i name behind hcut
        obtain ⟨rfl, hname⟩ := Text.cutAt?_eq_some.1 hcut
        exact ⟨by simp [written], hname, by simp⟩
      · rename_i hcut
        refine ⟨by simp [written], ?_, fun _ => rfl⟩
        intro hclose
        obtain ⟨name, behind, rfl, hname⟩ := List.eq_append_cons_of_mem hclose
        rw [Text.cutAt?_eq_some.2 ⟨rfl, hname⟩] at hcut
        cases hcut
    · rename_i hopen
      split
      · rename_i hc
        exact ⟨congrArg ('$' :: ·) List.takeWhile_append_dropWhile.symm, longest_takeWhile hc rest⟩
      · rename_i hc
        refine ⟨rfl, ?_⟩
        rintro _ ⟨⟩
        exact ⟨hopen, by simpa using hc⟩

theorem first_fits (c : Char) (cs : List Char) : c :: cs = (first c cs).1.written ++ (first c cs).2 ∧
    (first c cs).1.Fits (first c cs).2 := by
  rw [first]
  split
  · rename_i hc
    subst hc
    exact reference_fits cs
  · rename_i hc
    exact ⟨(List.takeWhile_append_dropWhile (p := (· != '$'))).symm, longest_takeWhile (by simp [hc]) cs⟩

theorem first_eq (hcs : c :: cs = part.written ++ rest) (h : part.Fits rest) : first c cs = (part, rest) := by
  cases part with
  | plain text =>
    have hcs : c :: cs = text ++ rest := hcs
    obtain ⟨d, text, rfl⟩ := List.exists_cons_of_ne_nil h.nonempty
    obtain ⟨rfl, _⟩ := List.cons.inj hcs
    have hc : c ≠ '$' := by simpa using h.inside c List.mem_cons_self
    rw [first, if_neg hc, hcs, h.takeWhile, h.dropWhile]
  | braced name closed =>
    obtain ⟨hname, hrest⟩ := h
    obtain ⟨rfl, rfl⟩ := List.cons.inj hcs
    cases closed with
    | true =>
      have hcut : Text.cutAt? Text.closeBrace (name ++ Text.closeBrace :: rest) = some (name, rest) :=
        Text.cutAt?_eq_some.2 ⟨rfl, hname⟩
      simp [first, reference, hcut]
    | false =>
      rw [hrest rfl]
      simp [first, reference, Text.cutAt?_eq_none hname]
  | bare name =>
    obtain ⟨rfl, rfl⟩ := List.cons.inj hcs
    obtain ⟨d, name, rfl⟩ := List.exists_cons_of_ne_nil h.nonempty
    have hd : isNameChar d = true := h.inside d List.mem_cons_self
    rw [first, if_pos rfl, List.append_eq, List.cons_append, reference, if_neg (ne_openBrace hd), if_pos hd,
      ← List.cons_append, h.takeWhile, h.dropWhile]
  | dollar =>
    obtain ⟨rfl, rfl⟩ := List.cons.inj hcs
    cases cs with
    | nil => rfl
    | cons d cs =>
      obtain ⟨hopen, hd⟩ := h d rfl
      simp [first, reference, hopen, hd]

end Part

theorem Splits.eq_nil (h : Splits [] parts) : parts = [] := by
  cases h with
  | nil => rfl
  | cons hcs hfits => exact absurd (List.append_eq_nil_iff.1 hcs.symm).1 (Part.written_ne_nil hfits)

theorem Splits.unique {parts' : List Part} (h : Splits cs parts) (h' : Splits cs parts') : parts' = parts := by
  induction h generalizing parts' with
  | nil => exact h'.eq_nil
  | @cons cs _ _ _ hcs hfits hrest ih =>
    cases cs with
    | nil => exact h'.eq_nil.trans (Splits.cons hcs hfits hrest).eq_nil.symm
    | cons c cs =>
      cases h' with
      | cons hcs' hfits' hrest' =>
        have hfirst := Part.first_eq hcs hfits
        rw [Part.first_eq hcs' hfits'] at hfirst
        cases hfirst
        rw [ih hrest']

theorem exists_splits (cs : List Char) : ∃ parts, Splits cs parts := by
  induction hn : cs.length using Nat.strongRecOn generalizing cs with
  | ind n ih =>
    cases cs with
    | nil => exact ⟨[], .nil⟩
    | cons c cs =>
      obtain ⟨hcs, hfits⟩ := Part.first_fits c cs
      have hwritten := List.length_pos_iff.2 (Part.written_ne_nil hfits)
      have hlength := congrArg List.length hcs
      rw [List.length_append] at hlength
      obtain ⟨parts, hparts⟩ := ih _ (by omega) (Part.first c cs).2 rfl
      exact ⟨_, .cons hcs hfits hparts⟩

theorem scan_chars {text : List Char} (h : ∀ c ∈ text, (c != '$') = true) (rest : List Char) :
    scan .plain (text ++ rest) = text.map .char ++ scan .plain rest := by
  induction text with
  | nil => rfl
  | cons c text ih =>
    obtain ⟨hc, htext⟩ := List.forall_mem_cons.1 h
    rw [List.cons_append, scan, if_neg (by simpa using hc), ih htext, List.map_cons, List.cons_append]

theorem scan_braced {name : List Char} (h : Text.closeBrace ∉ name) (seen rest : List Char) :
    scan (.braced seen) (name ++ rest) = scan (.braced (seen ++ name)) rest := by
  induction name generalizing seen with
  | nil => rw [List.nil_append, List.append_nil]
  | cons c name ih =>
    rw [List.mem_cons, not_or] at h
    rw [List.cons_append, scan, if_neg (Ne.symm h.1), ih h.2, List.append_assoc, List.singleton_append]

theorem scan_bare {name : List Char} (h : ∀ c ∈ name, isNameChar c = true) (seen rest : List Char) :
    scan (.bare seen) (name ++ rest) = scan (.bare (seen ++ name)) rest := by
  induction name generalizing seen with
  | nil => rw [List.nil_append, List.append_nil]
  | cons c name ih =>
    obtain ⟨hc, hname⟩ := List.forall_mem_cons.1 h
    rw [List.cons_append, scan, if_pos hc, ih hname, List.append_assoc, List.singleton_append]

theorem scan_bare_end (h : ∀ c ∈ rest.head?, isNameChar c = false) (name : List Char) :
    scan (.bare name) rest = .var name :: scan .plain rest := by
  cases rest with
  | nil => rfl
  | cons c rest =>
    have hc : isNameChar c = false := h c rfl
    simp only [scan, hc, Bool.false_eq_true, if_false]
    split <;> rfl

theorem scan_dollar (h : ∀ c ∈ rest.head?, c ≠ Text.openBrace ∧ isNameChar c = false) :
    scan .dollar rest = .char '$' :: scan .plain rest := by
  cases rest with
  | nil => rfl
  | cons c rest =>
    obtain ⟨hopen, hc⟩ := h c rfl
    simp only [scan, hopen, hc, Bool.false_eq_true, if_false]
    split <;> rfl

theorem scan_written (h : part.Fits rest) :
    scan .plain (part.written ++ rest) = part.pieces ++ scan .plain rest := by
  cases part with
  | plain text => exact scan_chars h.inside rest
  | braced name closed =>
    obtain ⟨hname, hrest⟩ := h
    have hopen : ∀ more, scan .plain ('$' :: Text.openBrace :: name ++ more) = scan (.braced name) more :=
      fun more => scan_braced hname [] more
    cases closed with
    | true =>
      rw [Part.written, if_pos rfl, List.append_assoc, hopen]
      rfl
    | false =>
      rw [hrest rfl, List.append_nil, Part.written, if_neg (by decide), hopen]
      rfl
  | bare name =>
    obtain ⟨c, name, rfl⟩ := List.exists_cons_of_ne_nil h.nonempty
    obtain ⟨hc, hname⟩ := List.forall_mem_cons.1 h.inside
    have hfirst : scan .plain ('$' :: c :: name ++ rest) = scan (.bare [c]) (name ++ rest) := by
      rw [List.cons_append, List.cons_append, scan, if_pos rfl, scan, if_neg (ne_openBrace hc), if_pos hc]
    rw [Part.written, hfirst, scan_bare hname, scan_bare_end h.behind]
    rfl
  | dollar => exact scan_dollar h

/-- The scanner finds the parts of a text, however they follow each other. -/
theorem scan_splits (h : Splits cs parts) : scan .plain cs = parts.flatMap Part.pieces := by
  induction h with
  | nil => rfl
  | cons hcs hfits _ ih => rw [hcs, scan_written hfits, ih, List.flatMap_cons]

variable {value : String → Option String}

theorem fill_chars (text : List Char) (ps : List Piece) :
    fill value (text.map .char ++ ps) = (fill value ps).map (text ++ ·) := by
  induction text with
  | nil => cases h : fill value ps <;> simp [h, Except.map]
  | cons c text ih =>
    rw [List.map_cons, List.cons_append, fill, ih]
    cases fill value ps <;> rfl

theorem fill_pieces (part : Part) (ps : List Piece) :
    fill value (part.pieces ++ ps) = part.read value >>= fun text => (fill value ps).map (text ++ ·) := by
  have hname : ∀ name, fill value (.var name :: ps) =
      (match value (String.ofList name) with
        | none => .error (String.ofList name)
        | some text => .ok text.toList : Except String (List Char)) >>=
          fun text => (fill value ps).map (text ++ ·) := by
    intro name
    rw [fill]
    cases value (String.ofList name) <;> rfl
  cases part with
  | plain text => exact fill_chars text ps
  | braced name _ | bare name => exact hname name
  | dollar => rfl

/-- The values are put in once the text is cut, and are not looked at again. -/
theorem fill_parts (parts : List Part) :
    fill value (parts.flatMap Part.pieces) = (parts.mapM (Part.read value)).map List.flatten := by
  induction parts with
  | nil => rfl
  | cons part parts ih =>
    rw [List.flatMap_cons, fill_pieces, ih, List.mapM_cons]
    cases part.read value with
    | error name => rfl
    | ok text => cases parts.mapM (Part.read value) <;> rfl

theorem expand_eq (env : Environment) {text : String} (h : Splits text.toList parts) :
    expand env text = (parts.mapM (Part.read env.get?)).map fun texts => String.ofList texts.flatten := by
  rw [expand, scan_splits h, fill_parts]
  cases parts.mapM (Part.read env.get?) <;> rfl

theorem Part.read_eq_error {name : String} :
    part.read value = .error name ↔ part.name? = some name ∧ value name = none := by
  rw [read]
  cases part.name? with
  | none => simp
  | some name' =>
    dsimp only
    cases hvalue : value name' with
    | none =>
      simp only [Except.error.injEq, Option.some.injEq]
      constructor
      · rintro rfl
        exact ⟨rfl, hvalue⟩
      · exact fun h => h.1
    | some text =>
      simp only [Option.some.injEq, reduceCtorEq, false_iff, not_and]
      rintro rfl
      simp [hvalue]

/-- A text with the names in it replaced by their values. The first name without a value is the error, and a name of
no characters never has one. -/
structure Replaces (env : Environment) (text : String) (parts : List Part) : Prop where
  splits : Splits text.toList parts
  unique : ∀ parts', Splits text.toList parts' → parts' = parts
  expanded : ∀ out, expand env text = .ok out ↔
    ∃ texts, List.Forall₂ (fun part text => part.read env.get? = .ok text) parts texts ∧
      out = String.ofList texts.flatten
  missing : ∀ name, expand env text = .error name ↔ ∃ before part after, parts = before ++ part :: after ∧
    (∀ earlier ∈ before, ∃ text, earlier.read env.get? = .ok text) ∧
      part.name? = some name ∧ env.get? name = none
  nameless : env.get? "" = none
  path : ∀ e, Settings.expandPath env (some text) = .error e ↔
    ∃ name, expand env text = .error name ∧ e = .missingVariable name

theorem replaces_expand (env : Environment) (text : String) : ∃ parts, Replaces env text parts := by
  obtain ⟨parts, hparts⟩ := exists_splits text.toList
  refine ⟨parts, hparts, fun _ => hparts.unique, ?expanded, ?missing, rfl, ?path⟩
  case expanded =>
    intro out
    rw [expand_eq env hparts, map_eq_ok]
    simp only [mapM_eq_ok, eq_comm (a := out)]
  case missing =>
    intro name
    rw [expand_eq env hparts, map_eq_error, mapM_eq_error]
    simp only [Part.read_eq_error]
  case path =>
    intro e
    rw [Settings.expandPath]
    cases expand env text with
    | error name => simp [eq_comm]
    | ok out => simp

example : expand ⟨.ofList [("A", "$B")]⟩ "$$A-$\x7bA" = .ok "$$B-$B" := by decide +kernel

end Retrieval.Expansion
