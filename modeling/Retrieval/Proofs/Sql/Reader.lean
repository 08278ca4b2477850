import Mathlib.Data.List.Basic
import Retrieval.Sql.Select

namespace Retrieval.Sql

def isBracket (c : Char) : Bool :=
  c == '\'' || c == '(' || c == ')'

/-- Whether a text ends outside of quotes with all its parentheses closed, when it starts inside so
many. Parentheses between quotes do not count. -/
def closes (quoted : Bool) (depth : Nat) : List Char → Bool
  | [] => !quoted && depth == 0
  | c :: rest =>
    if c = '\'' then closes (!quoted) depth rest
    else if quoted then closes quoted depth rest
    else if c = '(' then closes quoted (depth + 1) rest
    else if c = ')' then depth != 0 && closes quoted (depth - 1) rest
    else closes quoted depth rest

def Balanced (cs : List Char) : Prop :=
  closes false 0 cs = true

instance (cs : List Char) : Decidable (Balanced cs) :=
  inferInstanceAs (Decidable (_ = true))

theorem closes_filter (quoted : Bool) (depth : Nat) (cs : List Char) :
    closes quoted depth (cs.filter isBracket) = closes quoted depth cs := by
  induction cs generalizing quoted depth with
  | nil => rfl
  | cons c rest ih =>
    by_cases hc : isBracket c = true
    · rw [List.filter_cons_of_pos hc]
      simp only [closes, ih]
    · rw [List.filter_cons_of_neg hc, ih]
      simp only [isBracket, Bool.or_eq_true, beq_iff_eq, not_or] at hc
      obtain ⟨⟨hquote, hopen⟩, hclose⟩ := hc
      simp [closes, hquote, hopen, hclose]

theorem balanced_of_filter_eq {cs ds : List Char} (h : cs.filter isBracket = ds.filter isBracket)
    (hb : Balanced ds) : Balanced cs := by
  rw [Balanced, ← closes_filter, h, closes_filter]
  exact hb

def Operator.strength : Operator → Nat
  | .or => 1
  | .and => 2
  | .eq | .ne | .lt | .gt | .le | .ge | .like => 3

theorem Operator.strength_bounds (op : Operator) : 1 ≤ op.strength ∧ op.strength ≤ 3 := by
  cases op <;> decide

def Token.operator? : Token → Option Operator
  | .eq => some .eq
  | .ne => some .ne
  | .lt => some .lt
  | .gt => some .gt
  | .le => some .le
  | .ge => some .ge
  | .like => some .like
  | .and => some .and
  | .or => some .or
  | _ => none

theorem Token.operator?_eq_some {t : Token} {op : Operator} (h : t.operator? = some op) :
    t = op.token := by
  cases t <;> cases h <;> rfl

inductive Waiting where
  | operator (op : Operator) (left : Expr)
  | group
  | list (e : Expr) (values : List Expr)
  deriving Repr

inductive Progress where
  | operand
  | after (e : Expr)
  | dotted (table : String)
  | text (sql : String)
  | is (e : Expr)
  | isNot (e : Expr)
  | in (e : Expr)
  deriving Repr

structure Reader where
  stack : List Waiting := []
  progress : Progress := .operand
  deriving Repr

namespace Reader

/-- Gives an operand to all that waits for it and binds at least so tight. -/
def close (strength : Nat) (e : Expr) : List Waiting → Expr × List Waiting
  | .operator op left :: rest =>
    if strength ≤ op.strength then close strength (.binary op left e) rest
    else (e, .operator op left :: rest)
  | stack => (e, stack)

/-- How tight an operand has to be for what waits on top. -/
def need : List Waiting → Nat
  | .operator op _ :: _ => op.strength + 1
  | _ => 1

def start (stack : List Waiting) : Token → Option Reader
  | .name n => some ⟨stack, .after (.column none n)⟩
  | .literal l => some ⟨stack, .after (.literal l)⟩
  | .openParen => some ⟨.group :: stack, .operand⟩
  -- the text is a comparison already
  | .never => if need stack ≤ 3 then some ⟨stack, .after .never⟩ else none
  -- a text of the model is read as one operand only if nothing in it can close the group around it
  | .raw s =>
    match stack with
    | .group :: _ => if Balanced s.toList then some ⟨stack, .text s⟩ else none
    | _ => none
  | _ => none

def finish : Expr × List Waiting → Option Reader
  | (e, .group :: rest) => some ⟨rest, .after (.group e)⟩
  | (value, .list e values :: rest) => some ⟨rest, .after (.oneOf e (values ++ [value]))⟩
  | _ => none

def goOn (e : Expr) (stack : List Waiting) (t : Token) : Option Reader :=
  match t, e with
  | .dot, .column none n => some ⟨stack, .dotted n⟩
  | .is, _ =>
    let (e, stack) := close 3 e stack
    some ⟨stack, .is e⟩
  | .in, _ =>
    let (e, stack) := close 3 e stack
    some ⟨stack, .in e⟩
  | .comma, _ =>
    match close 1 e stack with
    | (value, .list e values :: rest) => some ⟨.list e (values ++ [value]) :: rest, .operand⟩
    | _ => none
  | .closeParen, _ => finish (close 1 e stack)
  | _, _ => t.operator?.map fun op =>
    let (e, stack) := close op.strength e stack
    ⟨.operator op e :: stack, .operand⟩

def step (r : Reader) (t : Token) : Option Reader :=
  match r.progress, t with
  | _, .space => some r
  | .operand, _ => start r.stack t
  | .after e, _ => goOn e r.stack t
  | .dotted table, .name n => some { r with progress := .after (.column (some table) n) }
  | .text s, .closeParen => finish (.raw s, r.stack)
  | .is e, .null => some { r with progress := .after (.isNull e false) }
  | .is e, .not => some { r with progress := .isNot e }
  | .isNot e, .null => some { r with progress := .after (.isNull e true) }
  | .in e, .openParen => some ⟨.list e [] :: r.stack, .operand⟩
  | _, _ => none

def run (r : Reader) (ts : List Token) : Option Reader :=
  ts.foldlM step r

def result? (r : Reader) : Option Expr :=
  match r.progress with
  | .after e =>
    match close 1 e r.stack with
    | (e, []) => some e
    | _ => none
  | _ => none

end Reader

/-- The expression that tokens are read as. Comparisons and the tests `IN` and `IS NULL` bind
tighter than `AND`, and `AND` tighter than `OR`; operators that bind alike associate to the left. -/
def read? (ts : List Token) : Option Expr :=
  (Reader.run {} ts).bind Reader.result?

/-- An expression that keeps its parts together next to operators that bind less tight. -/
inductive Expr.Tight : Nat → Expr → Prop
  | column (table : Option String) (name : String) : Tight 4 (.column table name)
  | literal (l : Literal) : Tight 4 (.literal l)
  | group {e : Expr} (h : Tight 1 e) : Tight 4 (.group e)
  | text {sql : String} (h : Balanced sql.toList) : Tight 4 (.group (.raw sql))
  | binary {op : Operator} {left right : Expr} (hl : Tight op.strength left)
      (hr : Tight (op.strength + 1) right) : Tight op.strength (.binary op left right)
  | oneOf {e value : Expr} {values : List Expr} (he : Tight 3 e) (hv : Tight 1 value)
      (hs : ∀ value ∈ values, Tight 1 value) : Tight 3 (.oneOf e (value :: values))
  | isNull {e : Expr} (negated : Bool) (h : Tight 3 e) : Tight 3 (.isNull e negated)
  | never : Tight 3 .never
  | weaken {j k : Nat} {e : Expr} (hjk : j ≤ k) (h : Tight k e) : Tight j e

namespace Reader

variable {r : Reader} {e : Expr} {stack : List Waiting} {ts us : List Token} {j k : Nat}

@[simp] theorem run_nil (r : Reader) : r.run [] = some r := rfl

@[simp] theorem run_cons (t : Token) (ts : List Token) :
    r.run (t :: ts) = (r.step t).bind fun r => r.run ts := rfl

@[simp] theorem run_append (ts us : List Token) :
    r.run (ts ++ us) = (r.run ts).bind fun r => r.run us := by
  simp only [run, List.foldlM_append, Option.bind_eq_bind]

@[simp] theorem step_space (r : Reader) : r.step .space = some r := by
  unfold step
  split <;> simp_all

@[simp] theorem step_openParen : step ⟨stack, .operand⟩ .openParen = some ⟨.group :: stack, .operand⟩ := rfl

@[simp] theorem step_closeParen :
    step ⟨stack, .after e⟩ .closeParen = finish (close 1 e stack) := rfl

@[simp] theorem step_in : step ⟨stack, .after e⟩ .in =
    some ⟨(close 3 e stack).2, .in (close 3 e stack).1⟩ := rfl

@[simp] theorem step_list : step ⟨stack, .in e⟩ .openParen = some ⟨.list e [] :: stack, .operand⟩ := rfl

@[simp] theorem step_is : step ⟨stack, .after e⟩ .is =
    some ⟨(close 3 e stack).2, .is (close 3 e stack).1⟩ := rfl

@[simp] theorem step_not : step ⟨stack, .is e⟩ .not = some ⟨stack, .isNot e⟩ := rfl

@[simp] theorem step_isNull : step ⟨stack, .is e⟩ .null = some ⟨stack, .after (.isNull e false)⟩ := rfl

@[simp] theorem step_isNotNull :
    step ⟨stack, .isNot e⟩ .null = some ⟨stack, .after (.isNull e true)⟩ := rfl

@[simp] theorem step_operator (op : Operator) : step ⟨stack, .after e⟩ op.token =
    some ⟨.operator op (close op.strength e stack).1 :: (close op.strength e stack).2, .operand⟩ := by
  cases op <;> rfl

theorem step_comma {rest : List Waiting} {list value : Expr} {values : List Expr}
    (h : close 1 e stack = (value, .list list values :: rest)) :
    step ⟨stack, .after e⟩ .comma = some ⟨.list list (values ++ [value]) :: rest, .operand⟩ := by
  simp [step, goOn, h]

theorem step_never (h : need stack ≤ 3) : step ⟨stack, .operand⟩ .never = some ⟨stack, .after .never⟩ := by
  simp [step, start, h]

theorem step_raw {sql : String} (h : Balanced sql.toList) :
    step ⟨.group :: stack, .operand⟩ (.raw sql) = some ⟨.group :: stack, .text sql⟩ := by
  simp [step, start, h]

@[simp] theorem step_text (sql : String) :
    step ⟨.group :: stack, .text sql⟩ .closeParen = some ⟨stack, .after (.group (.raw sql))⟩ := rfl

theorem close_of_need_le (h : need stack ≤ k) : close k e stack = (e, stack) := by
  unfold close
  split
  · rename_i op left rest
    have hlt : op.strength < k := h
    rw [if_neg (by omega)]
  · rfl

/-- Closing what binds tight first makes no difference. -/
theorem close_close (hjk : j ≤ k) (e : Expr) (stack : List Waiting) :
    close j (close k e stack).1 (close k e stack).2 = close j e stack := by
  induction stack generalizing e with
  | nil => rfl
  | cons waiting rest ih =>
    cases waiting with
    | operator op left =>
      by_cases hk : k ≤ op.strength
      · have hj : j ≤ op.strength := by omega
        simp only [close, if_pos hk, if_pos hj, ih]
      · simp only [close, if_neg hk]
    | group => rfl
    | list e values => rfl

def Reads (k : Nat) (e : Expr) (ts : List Token) : Prop :=
  ∀ stack, need stack ≤ k → ∃ e' stack', run ⟨stack, .operand⟩ ts = some ⟨stack', .after e'⟩ ∧
    close k e' stack' = (e, stack)

theorem Reads.of_run (h : ∀ stack, need stack ≤ k → run ⟨stack, .operand⟩ ts = some ⟨stack, .after e⟩) :
    Reads k e ts := by
  intro stack hneed
  exact ⟨e, stack, h stack hneed, close_of_need_le hneed⟩

theorem Reads.weaken (h : Reads k e ts) (hjk : j ≤ k) : Reads j e ts := by
  intro stack hneed
  obtain ⟨e', stack', hrun, hclose⟩ := h stack (Nat.le_trans hneed hjk)
  refine ⟨e', stack', hrun, ?_⟩
  rw [← close_close hjk, hclose]
  exact close_of_need_le hneed

theorem Reads.binary {op : Operator} {left right : Expr} (hl : Reads op.strength left ts)
    (hr : Reads (op.strength + 1) right us) :
    Reads op.strength (.binary op left right) (ts ++ [.space, op.token, .space] ++ us) := by
  intro stack hneed
  obtain ⟨left', stack₁, hrun₁, hclose₁⟩ := hl stack hneed
  obtain ⟨right', stack₂, hrun₂, hclose₂⟩ := hr (.operator op left :: stack) (Nat.le_refl _)
  refine ⟨right', stack₂, ?_, ?_⟩
  · simp [hrun₁, hclose₁, hrun₂]
  · rw [← close_close (Nat.le_succ _), hclose₂, close, if_pos (Nat.le_refl _)]
    exact close_of_need_le hneed

theorem Reads.group (h : Reads 1 e ts) : Reads 4 (.group e) (.openParen :: ts ++ [.closeParen]) := by
  apply Reads.of_run
  intro stack _
  obtain ⟨e', stack', hrun, hclose⟩ := h (.group :: stack) (Nat.le_refl _)
  simp [hrun, hclose, finish]

theorem Reads.text {sql : String} (h : Balanced sql.toList) :
    Reads 4 (.group (.raw sql)) [.openParen, .raw sql, .closeParen] := by
  apply Reads.of_run
  intro stack _
  simp [step_raw h]

theorem Reads.isNull {negated : Bool} (h : Reads 3 e ts) : Reads 3 (.isNull e negated)
    (ts ++ [.space, .is] ++ (if negated then [.space, .not] else []) ++ [.space, .null]) := by
  apply Reads.of_run
  intro stack hneed
  obtain ⟨e', stack', hrun, hclose⟩ := h stack hneed
  cases negated <;> simp [hrun, hclose]

theorem run_moreTokens (e : Expr) (stack : List Waiting) (done : List Expr) {values : List Expr}
    {value : Expr} (hv : Reads 1 value ts)
    (hs : ∀ value ∈ values, Reads 1 value value.tokens) :
    (run ⟨.list e done :: stack, .operand⟩ (ts ++ Expr.moreTokens values ++ [.closeParen])) =
      some ⟨stack, .after (.oneOf e (done ++ value :: values))⟩ := by
  induction values generalizing ts done value with
  | nil =>
    obtain ⟨e', stack', hrun, hclose⟩ := hv (.list e done :: stack) (Nat.le_refl _)
    simp [Expr.moreTokens, hrun, hclose, finish]
  | cons next rest ih =>
    obtain ⟨hnext, hrest⟩ := List.forall_mem_cons.1 hs
    obtain ⟨e', stack', hrun, hclose⟩ := hv (.list e done :: stack) (Nat.le_refl _)
    have hmore := ih (done ++ [value]) hnext hrest
    simpa [Expr.moreTokens, hrun, step_comma hclose] using hmore

theorem Reads.oneOf {value : Expr} {values : List Expr} (he : Reads 3 e e.tokens)
    (hv : Reads 1 value value.tokens) (hs : ∀ value ∈ values, Reads 1 value value.tokens) :
    Reads 3 (.oneOf e (value :: values)) (Expr.oneOf e (value :: values)).tokens := by
  apply Reads.of_run
  intro stack hneed
  obtain ⟨e', stack', hrun, hclose⟩ := he stack hneed
  have hlist := run_moreTokens e stack [] hv hs
  simpa [Expr.tokens, hrun, hclose] using hlist

end Reader

namespace Expr

theorem Tight.reads {k : Nat} {e : Expr} (h : Tight k e) : Reader.Reads k e e.tokens := by
  induction h with
  | column table name =>
    apply Reader.Reads.of_run
    intro stack _
    cases table <;> rfl
  | literal l =>
    apply Reader.Reads.of_run
    intro stack _
    rfl
  | group _ ih => exact .group ih
  | text h => exact .text h
  | binary _ _ ihl ihr =>
    rw [tokens]
    exact .binary ihl ihr
  | oneOf _ _ _ ihe ihv ihs => exact .oneOf ihe ihv ihs
  | isNull negated _ ih =>
    rw [tokens]
    exact .isNull ih
  | never =>
    apply Reader.Reads.of_run
    intro stack hneed
    simp [tokens, Reader.step_never hneed]
  | weaken hjk _ ih => exact ih.weaken hjk

/-- An expression of a tight shape is read back as it was written. -/
theorem Tight.read? {e : Expr} (h : Tight 1 e) : read? e.tokens = some e := by
  obtain ⟨e', stack', hrun, hclose⟩ := h.reads [] (Nat.le_refl _)
  simp [Sql.read?, hrun, Reader.result?, hclose]

example : Sql.read? (binary .and (binary .or (column none "a") (column none "b")) (column none "c")).tokens =
    some (.binary .or (.column none "a") (.binary .and (.column none "b") (.column none "c"))) := rfl

theorem Tight.foldl {op : Operator} {e : Expr} {es : List Expr} (he : Tight op.strength e)
    (hs : ∀ e ∈ es, Tight (op.strength + 1) e) : Tight op.strength (es.foldl (.binary op) e) := by
  induction es generalizing e with
  | nil => exact he
  | cons first rest ih =>
    obtain ⟨hfirst, hrest⟩ := List.forall_mem_cons.1 hs
    exact ih (.binary he hfirst) hrest

theorem Tight.reduce (op : Operator) {es : List Expr} (hs : ∀ e ∈ es, Tight (op.strength + 1) e) :
    ∀ e ∈ Expr.reduce op es, Tight op.strength e := by
  intro e he
  cases es with
  | nil => cases he
  | cons first rest =>
    cases he
    obtain ⟨hfirst, hrest⟩ := List.forall_mem_cons.1 hs
    exact .foldl (hfirst.weaken (Nat.le_succ _)) hrest

theorem Tight.anyGroup {es : List Expr} (hs : ∀ e ∈ es, Tight 2 e) : Tight 4 (.anyGroup es) := by
  have hany := Tight.reduce .or hs
  rw [Expr.anyGroup, any]
  apply Tight.group
  cases h : Expr.reduce .or es with
  | none => exact .weaken (by decide) .never
  | some e => exact hany e h

mutual

/-- The expression that the text is of: there is no text for membership in an empty list but one for
a condition that never holds. -/
def asWritten : Expr → Expr
  | .column table name => .column table name
  | .literal l => .literal l
  | .raw s => .raw s
  | .group e => .group e.asWritten
  | .binary op left right => .binary op left.asWritten right.asWritten
  | .oneOf _ [] => .never
  | .oneOf e (value :: rest) => .oneOf e.asWritten (value.asWritten :: allAsWritten rest)
  | .isNull e negated => .isNull e.asWritten negated
  | .never => .never

def allAsWritten : List Expr → List Expr
  | [] => []
  | e :: rest => e.asWritten :: allAsWritten rest

end

mutual

@[simp] theorem tokens_asWritten : ∀ e : Expr, e.asWritten.tokens = e.tokens
  | .column none _ | .column (some _) _ | .literal _ | .raw _ | .oneOf _ [] | .never => by
    simp [asWritten, tokens]
  | .group e => by simp [asWritten, tokens, tokens_asWritten e]
  | .binary op left right => by
    simp [asWritten, tokens, tokens_asWritten left, tokens_asWritten right]
  | .oneOf e (value :: rest) => by
    simp [asWritten, tokens, tokens_asWritten e, tokens_asWritten value, moreTokens_allAsWritten rest]
  | .isNull e negated => by simp [asWritten, tokens, tokens_asWritten e]

theorem moreTokens_allAsWritten : ∀ es : List Expr, moreTokens (allAsWritten es) = moreTokens es
  | [] => rfl
  | e :: rest => by simp [allAsWritten, moreTokens, tokens_asWritten e, moreTokens_allAsWritten rest]

end

theorem allAsWritten_eq_map (es : List Expr) : allAsWritten es = es.map asWritten := by
  induction es with
  | nil => rfl
  | cons e rest ih => rw [allAsWritten, ih, List.map_cons]

theorem asWritten_foldl (op : Operator) (e : Expr) (es : List Expr) :
    (es.foldl (.binary op) e).asWritten = (es.map asWritten).foldl (.binary op) e.asWritten := by
  induction es generalizing e with
  | nil => rfl
  | cons first rest ih => rw [List.foldl_cons, ih, asWritten, List.map_cons, List.foldl_cons]

theorem asWritten_reduce (op : Operator) (es : List Expr) :
    (reduce op es).map asWritten = reduce op (es.map asWritten) := by
  cases es with
  | nil => rfl
  | cons e rest => rw [reduce, Option.map_some, asWritten_foldl, List.map_cons, reduce]

theorem asWritten_anyGroup (es : List Expr) : (anyGroup es).asWritten = anyGroup (es.map asWritten) := by
  rw [anyGroup, anyGroup, any, any, ← asWritten_reduce, asWritten]
  cases reduce .or es <;> rfl

end Expr

end Retrieval.Sql
