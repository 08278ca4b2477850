import Mathlib.Data.List.Basic
import Retrieval.Proofs.Text.Placeholder

namespace Retrieval.Placeholder

def IsToken (run : List Char) : Prop :=
  run ≠ [] ∧ ∀ c ∈ run, isNameChar c = true

def bracketed (run : List Char) : List Char :=
  '[' :: run ++ [']']

/-- A name in brackets, between what stands before it and what stands behind it. -/
def Occurs (cs before run after : List Char) : Prop :=
  cs = before ++ bracketed run ++ after ∧ IsToken run

def written (rest : List (List Char × List Char)) : List Char :=
  rest.flatMap fun entry => bracketed entry.1 ++ entry.2

/-- A text cut at its names in brackets: the text before the first, and each name with the text behind it. -/
structure Cut (cs first : List Char) (rest : List (List Char × List Char)) : Prop where
  text : cs = first ++ written rest
  occurs : ∀ before run after, Occurs cs before run after ↔ ∃ earlier text later,
    rest = earlier ++ (run, text) :: later ∧ before = first ++ written earlier ∧ after = text ++ written later

section

variable {cs run run' before after first : List Char} {rest : List (List Char × List Char)} {c d : Char}

theorem written_append (rest more : List (List Char × List Char)) :
    written (rest ++ more) = written rest ++ written more :=
  List.flatMap_append

theorem written_cons (run text : List Char) (rest : List (List Char × List Char)) :
    written ((run, text) :: rest) = bracketed run ++ (text ++ written rest) := by
  rw [written, List.flatMap_cons, List.append_assoc]
  rfl

theorem append_cons_inj {after' : List Char} (hrun : ∀ x ∈ run, isNameChar x = true)
    (hrun' : ∀ x ∈ run', isNameChar x = true) (hc : isNameChar c = false) (hd : isNameChar d = false) :
    run ++ c :: after = run' ++ d :: after' ↔ run = run' ∧ c = d ∧ after = after' := by
  constructor
  · intro h
    induction run generalizing run' with
    | nil =>
      cases run' with
      | nil => exact ⟨rfl, List.cons.inj h⟩
      | cons x run' =>
        have hx := hrun' x List.mem_cons_self
        rw [← (List.cons.inj h).1, hc] at hx
        cases hx
    | cons x run ih =>
      obtain ⟨hx, hrun⟩ := List.forall_mem_cons.1 hrun
      cases run' with
      | nil =>
        rw [(List.cons.inj h).1, hd] at hx
        cases hx
      | cons y run' =>
        obtain ⟨rfl, htail⟩ := List.cons.inj h
        obtain ⟨rfl, hrest⟩ := ih hrun (List.forall_mem_cons.1 hrun').2 htail
        exact ⟨rfl, hrest⟩
  · rintro ⟨rfl, rfl, rfl⟩
    rfl

theorem occurs_cons (hc : c ≠ '[') :
    Occurs (c :: cs) before run after ↔ ∃ front, before = c :: front ∧ Occurs cs front run after := by
  constructor
  · rintro ⟨hcs, hrun⟩
    cases before with
    | nil => exact absurd (List.cons.inj hcs).1 hc
    | cons x front =>
      obtain ⟨rfl, htail⟩ := List.cons.inj hcs
      exact ⟨front, rfl, htail, hrun⟩
  · rintro ⟨front, rfl, rfl, hrun⟩
    exact ⟨rfl, hrun⟩

theorem occurs_open (hrun : ∀ x ∈ run, isNameChar x = true) (hc : isNameChar c = false) :
    Occurs ('[' :: run ++ c :: cs) before run' after ↔
      (before = [] ∧ run' = run ∧ run ≠ [] ∧ c = ']' ∧ after = cs) ∨
        ∃ front, before = '[' :: run ++ front ∧ Occurs (c :: cs) front run' after := by
  constructor
  · rintro ⟨hcs, hrun'⟩
    cases before with
    | nil =>
      have htail : run ++ c :: cs = run' ++ ']' :: after := by simpa [bracketed] using hcs
      obtain ⟨rfl, rfl, rfl⟩ := (append_cons_inj hrun hrun'.2 hc rfl).1 htail
      exact .inl ⟨rfl, rfl, hrun'.1, rfl, rfl⟩
    | cons x front =>
      obtain ⟨rfl, htail⟩ := List.cons.inj hcs
      refine .inr ?_
      change run ++ c :: cs = front ++ bracketed run' ++ after at htail
      -- the next bracket that is opened stands behind all of `run`
      rw [List.append_assoc, List.append_eq_append_iff] at htail
      obtain ⟨more, rfl, hmore⟩ | ⟨more, rfl, hmore⟩ := htail
      · exact ⟨more, rfl, by rw [hmore, List.append_assoc], hrun'⟩
      · cases more with
        | nil =>
          refine ⟨[], by simp, ?_, hrun'⟩
          simpa using hmore.symm
        | cons y more =>
          have hy := hrun y (by simp)
          rw [← (List.cons.inj hmore).1] at hy
          cases hy
  · rintro (⟨rfl, rfl, hne, rfl, rfl⟩ | ⟨front, rfl, hcs, hrun'⟩)
    · exact ⟨by simp [bracketed], hne, hrun⟩
    · exact ⟨by rw [hcs]; simp, hrun'⟩

theorem not_occurs_open (hrun : ∀ x ∈ run, isNameChar x = true) : ¬ Occurs ('[' :: run) before run' after := by
  rintro ⟨hcs, _⟩
  have hclose : ']' ∈ '[' :: run := by
    rw [hcs]
    simp [bracketed]
  rcases List.mem_cons.1 hclose with h | h
  · cases h
  · have := hrun _ h
    cases this

theorem Cut.char (h : Cut cs first rest) (hc : c ≠ '[') : Cut (c :: cs) (c :: first) rest where
  text := by rw [h.text, List.cons_append]
  occurs := by
    intro before run after
    rw [occurs_cons hc]
    constructor
    · rintro ⟨front, rfl, hoccurs⟩
      obtain ⟨earlier, text, later, hrest, rfl, hafter⟩ := (h.occurs _ _ _).1 hoccurs
      exact ⟨earlier, text, later, hrest, rfl, hafter⟩
    · rintro ⟨earlier, text, later, hrest, rfl, hafter⟩
      exact ⟨_, rfl, (h.occurs _ _ _).2 ⟨earlier, text, later, hrest, rfl, hafter⟩⟩

/-- A bracket that no placeholder begins with is plain text, and so are the characters of names behind it. -/
theorem Cut.plain (h : Cut (c :: cs) first rest) (hrun : ∀ x ∈ run, isNameChar x = true)
    (hc : isNameChar c = false) (hnone : c = ']' → run = []) :
    Cut ('[' :: run ++ c :: cs) ('[' :: run ++ first) rest where
  text := by rw [h.text, List.append_assoc]
  occurs := by
    intro before run' after
    rw [occurs_open hrun hc]
    constructor
    · rintro (⟨_, _, hne, hclose, _⟩ | ⟨front, rfl, hoccurs⟩)
      · exact absurd (hnone hclose) hne
      · obtain ⟨earlier, text, later, hrest, rfl, hafter⟩ := (h.occurs _ _ _).1 hoccurs
        exact ⟨earlier, text, later, hrest, by rw [List.append_assoc], hafter⟩
    · rintro ⟨earlier, text, later, hrest, rfl, hafter⟩
      exact .inr ⟨_, by rw [List.append_assoc], (h.occurs _ _ _).2 ⟨earlier, text, later, hrest, rfl, hafter⟩⟩

theorem Cut.name (h : Cut cs first rest) (hrun : IsToken run) :
    Cut ('[' :: run ++ ']' :: cs) [] ((run, first) :: rest) where
  text := by
    rw [h.text, List.nil_append, written_cons, bracketed]
    simp
  occurs := by
    intro before run' after
    rw [occurs_open hrun.2 rfl]
    constructor
    · rintro (⟨rfl, rfl, _, _, rfl⟩ | ⟨front, rfl, hoccurs⟩)
      · exact ⟨[], first, rest, rfl, rfl, h.text⟩
      · obtain ⟨behind, rfl, hbehind⟩ := (occurs_cons (by decide)).1 hoccurs
        obtain ⟨earlier, text, later, hrest, rfl, hafter⟩ := (h.occurs _ _ _).1 hbehind
        refine ⟨(run, first) :: earlier, text, later, by rw [hrest, List.cons_append], ?_, hafter⟩
        rw [List.nil_append, written_cons, bracketed]
        simp
    · rintro ⟨earlier, text, later, hrest, rfl, rfl⟩
      cases earlier with
      | nil =>
        obtain ⟨hentry, rfl⟩ := List.cons.inj hrest
        cases hentry
        exact .inl ⟨rfl, rfl, hrun.1, rfl, h.text.symm⟩
      | cons entry earlier =>
        obtain ⟨rfl, hlater⟩ := List.cons.inj hrest
        refine .inr ⟨']' :: (first ++ written earlier), ?_, ?_⟩
        · rw [List.nil_append, written_cons, bracketed]
          simp
        · refine (occurs_cons (by decide)).2 ⟨_, rfl, ?_⟩
          exact (h.occurs _ _ _).2 ⟨earlier, text, later, hlater, rfl, rfl⟩

theorem cut_of_not_occurs (h : ∀ before run after, ¬ Occurs cs before run after) : Cut cs cs [] where
  text := (List.append_nil cs).symm
  occurs := by
    intro before run after
    refine iff_of_false (h before run after) ?_
    rintro ⟨earlier, text, later, hrest, _⟩
    simp at hrest

/-- Of two placeholders one ends before the other begins. -/
theorem Cut.apart (h : Cut cs first rest) {before' after' : List Char} (ho : Occurs cs before run after)
    (ho' : Occurs cs before' run' after') (hlt : before.length < before'.length) :
    before.length + (bracketed run).length ≤ before'.length := by
  obtain ⟨earlier, text, later, hrest, rfl, _⟩ := (h.occurs _ _ _).1 ho
  obtain ⟨earlier', text', later', hrest', rfl, _⟩ := (h.occurs _ _ _).1 ho'
  rw [hrest, List.append_eq_append_iff] at hrest'
  obtain ⟨more, rfl, hmore⟩ | ⟨more, rfl, _⟩ := hrest'
  · cases more with
    | nil => simp at hlt
    | cons entry more =>
      obtain ⟨rfl, _⟩ := List.cons.inj hmore
      simp only [written_append, written_cons, List.length_append]
      omega
  · simp only [written_append, List.length_append] at hlt
    omega

end

def texts : List Piece → List Char × List (List Char × List Char)
  | [] => ([], [])
  | .char c :: rest => (c :: (texts rest).1, (texts rest).2)
  | .name run :: rest => ([], (run, (texts rest).1) :: (texts rest).2)

def pending : Option (List Char) → List Char
  | none => []
  | some run => '[' :: run

theorem texts_map_char (cs : List Char) (ps : List Piece) :
    texts (cs.map .char ++ ps) = (cs ++ (texts ps).1, (texts ps).2) := by
  induction cs with
  | nil => rfl
  | cons c rest ih => rw [List.map_cons, List.cons_append, texts, ih, List.cons_append]

theorem texts_plain (run : List Char) (ps : List Piece) :
    texts (plain (some run) ++ ps) = ('[' :: run ++ (texts ps).1, (texts ps).2) := by
  rw [plain, List.cons_append, texts, texts_map_char, List.cons_append]

theorem names_texts (ps : List Piece) :
    ps.filterMap Piece.name? = (texts ps).2.map fun entry => String.ofList entry.1 := by
  induction ps with
  | nil => rfl
  | cons p rest ih =>
    cases p with
    | char c => exact ih
    | name run =>
      have hname : (Piece.name run).name? = some (String.ofList run) := rfl
      rw [List.filterMap_cons_some hname, ih, texts, List.map_cons]

theorem cut_scan {held : Option (List Char)} (h : Holds held) (cs : List Char) :
    Cut (pending held ++ cs) (texts (scan held cs)).1 (texts (scan held cs)).2 := by
  -- a name ends what is held back; any other character that is no part of a name shows it to be plain
  induction cs generalizing held with
  | nil =>
    rw [List.append_nil]
    cases held with
    | none => exact cut_of_not_occurs (by simp [Occurs, pending, bracketed])
    | some run =>
      have htexts := texts_plain run []
      rw [List.append_nil, texts, List.append_nil] at htexts
      rw [scan, htexts]
      exact cut_of_not_occurs fun _ _ _ => not_occurs_open (h run rfl)
  | cons c rest ih =>
    cases held with
    | none =>
      rw [scan]
      split
      · rename_i hopen
        rw [hopen]
        exact ih holds_nil
      · rename_i hopen
        exact (ih holds_none).char hopen
    | some run =>
      rw [scan]
      split
      · rename_i hc
        have hpush := ih (h.push hc)
        rwa [pending, ← List.cons_append, List.append_assoc] at hpush
      · rename_i hc
        rw [Bool.not_eq_true] at hc
        split
        · rename_i hclose
          simp only [Bool.and_eq_true, decide_eq_true_eq, Bool.not_eq_true', List.isEmpty_eq_false_iff] at hclose
          obtain ⟨rfl, hne⟩ := hclose
          exact (ih holds_none).name ⟨hne, h run rfl⟩
        · rename_i hclose
          have hnone : c = ']' → run = [] := by simpa using hclose
          split
          · rename_i hopen
            rw [texts_plain]
            subst hopen
            exact (ih holds_nil).plain (h run rfl) hc hnone
          · rename_i hopen
            rw [texts_plain]
            exact ((ih holds_none).char hopen).plain (h run rfl) hc hnone

theorem mem_names_of_occurs {template : String} {before run after : List Char}
    (h : Occurs template.toList before run after) : String.ofList run ∈ names template := by
  have hcut : Cut template.toList (texts (pieces template)).1 (texts (pieces template)).2 :=
    cut_scan holds_none template.toList
  obtain ⟨earlier, text, later, hrest, _⟩ := (hcut.occurs before run after).1 h
  rw [names, names_texts, hrest]
  simp

def answered (first : List Char) (rest : List (List Char × List Char)) (answers : List String) : List Char :=
  first ++ (List.zipWith (fun answer entry => answer.toList ++ entry.2) answers rest).flatten

/-- Filling in asks for the names of a template, one after the other, before anything is written. -/
theorem fill_eq_mapM {m : Type → Type} [Monad m] [LawfulMonad m] (resolve : String → m String) (ps : List Piece) :
    fill resolve ps = answered (texts ps).1 (texts ps).2 <$> (ps.filterMap Piece.name?).mapM resolve := by
  induction ps with
  | nil => simp [fill, texts, answered]
  | cons p rest ih =>
    cases p with
    | char c =>
      rw [fill, ih, List.filterMap_cons_none rfl, bind_pure_comp, Functor.map_map]
      rfl
    | name run =>
      have hname : (Piece.name run).name? = some (String.ofList run) := rfl
      rw [fill, ih, List.filterMap_cons_some hname, List.mapM_cons]
      simp [texts, answered]

section

variable {ε σ : Type}

def asked (resolve : String → σ → Except ε String × σ) (name : String) : ExceptT ε (StateM σ) String :=
  ExceptT.mk (resolve name)

inductive Answers (resolve : String → σ → Except ε String × σ) :
    List String → σ → List String → σ → Prop
  | nil {s : σ} : Answers resolve [] s [] s
  | cons {name answer : String} {names answers : List String} {s s' s'' : σ} (h : resolve name s = (.ok answer, s'))
      (hrest : Answers resolve names s' answers s'') : Answers resolve (name :: names) s (answer :: answers) s''

/-- What comes of asking for names: the answers to all of them, or the error of the first that is refused, behind
which none is asked for. -/
inductive Asks (resolve : String → σ → Except ε String × σ) (names : List String) (s : σ) :
    Except ε (List String) × σ → Prop
  | answered {answers : List String} {s' : σ} (h : Answers resolve names s answers s') :
      Asks resolve names s (.ok answers, s')
  | refused (before : List String) {after answers : List String} {name : String} {s' s'' : σ} {e : ε}
      (hnames : names = before ++ name :: after) (hbefore : Answers resolve before s answers s')
      (h : resolve name s' = (.error e, s'')) : Asks resolve names s (.error e, s'')

variable {resolve : String → σ → Except ε String × σ}

theorem Asks.cons {name answer : String} {names : List String} {s s' : σ} {x : Except ε (List String) × σ}
    (h : resolve name s = (.ok answer, s')) (hrest : Asks resolve names s' x) :
    Asks resolve (name :: names) s (x.1.map (answer :: ·), x.2) := by
  cases hrest with
  | answered hanswers => exact .answered (.cons h hanswers)
  | refused before hnames hbefore hrefused =>
    exact .refused (name :: before) (by rw [hnames, List.cons_append]) (.cons h hbefore) hrefused

theorem run_map {α β : Type} (f : α → β) (x : ExceptT ε (StateM σ) α) (s : σ) :
    (f <$> x).run s = ((x.run s).1.map f, (x.run s).2) := by
  rw [ExceptT.run_map]
  rfl

theorem run_asked_bind {α : Type} (name : String) (s : σ) (k : Except ε String → StateM σ (Except ε α)) :
    ((asked resolve name).run >>= k) s = k (resolve name s).1 (resolve name s).2 := rfl

theorem asks_mapM (resolve : String → σ → Except ε String × σ) (names : List String) (s : σ) :
    Asks resolve names s ((names.mapM (asked resolve)).run s) := by
  induction names generalizing s with
  | nil => exact .answered .nil
  | cons name rest ih =>
    rw [List.mapM_cons, ExceptT.run_bind, run_asked_bind]
    cases h : resolve name s with
    | mk result s' =>
      cases result with
      | error e => exact .refused [] rfl .nil h
      | ok answer =>
        have hcons := (ih s').cons h
        rw [← run_map, ← bind_pure_comp] at hcons
        exact hcons

end

theorem replace_eq_mapM {m : Type → Type} [Monad m] [LawfulMonad m] (resolve : String → m String)
    (template : String) : replace template resolve =
      (fun answers => String.ofList (answered (texts (pieces template)).1 (texts (pieces template)).2 answers)) <$>
        (names template).mapM resolve := by
  rw [replace, fill_eq_mapM, bind_pure_comp, Functor.map_map]
  rfl

/-- The names in brackets of a template are found in order, and none of them overlaps another. Replacing them asks
for each once and in order, up to the first that is refused, and writes the answers in their places. -/
theorem replaces_template (template : String) : ∃ first rest, Cut template.toList first rest ∧
    (∀ before run after before' run' after', Occurs template.toList before run after →
      Occurs template.toList before' run' after' → before.length < before'.length →
        before.length + (bracketed run).length ≤ before'.length) ∧
    names template = rest.map (fun entry => String.ofList entry.1) ∧
    ∀ (ε σ : Type) (resolve : String → σ → Except ε String × σ) (s : σ), ∃ x,
      Asks resolve (names template) s x ∧ (replace template (asked resolve)).run s =
        (x.1.map fun answers => String.ofList (answered first rest answers), x.2) := by
  have hcut : Cut template.toList (texts (pieces template)).1 (texts (pieces template)).2 :=
    cut_scan holds_none template.toList
  refine ⟨_, _, hcut, fun _ _ _ _ _ _ => hcut.apart, names_texts _, ?_⟩
  intro ε σ resolve s
  refine ⟨_, asks_mapM resolve (names template) s, ?_⟩
  rw [replace_eq_mapM, run_map]

example : names "[[id]] [] [a b] [é] [x" = ["id"] := by decide +kernel

end Retrieval.Placeholder
