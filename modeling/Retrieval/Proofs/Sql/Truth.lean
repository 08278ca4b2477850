import Mathlib.Data.List.Infix
import Retrieval.Sql.Expr

namespace Retrieval.Sql

inductive Value where
  | integer (n : Int)
  | real (x : Binary64)
  | text (s : String)
  | blob (bytes : List UInt8)
  deriving DecidableEq, Repr

def Literal.value : Literal → Option Value
  | .null => none
  | .integer n => some (.integer n)
  | .real x => some (.real x)
  | .text s => some (.text s)

/-- Whether a text is like a pattern, in which `%` stands for any run of characters and `_` for any
single one. The case of ASCII letters does not matter. -/
def like : List Char → List Char → Bool
  | [], text => text.isEmpty
  | c :: pattern, text =>
    if c = '%' then text.tails.any (like pattern)
    else match text with
      | [] => false
      | d :: rest => (c == '_' || c.toLower == d.toLower) && like pattern rest

/-- A word stands somewhere in a text, in either case. -/
def Occurs (word text : List Char) : Prop :=
  word.map Char.toLower <:+: text.map Char.toLower

instance (word text : List Char) : Decidable (Occurs word text) :=
  inferInstanceAs (Decidable (_ <:+: _))

theorem like_any (text : List Char) : like ['%'] text = true := by
  simp only [like, if_true, List.any_eq_true]
  exact ⟨[], by simp, rfl⟩

theorem like_word {word : List Char} (hw : ∀ c ∈ word, c.isAlphanum = true) (text : List Char) :
    like (word ++ ['%']) text = true ↔ word.map Char.toLower <+: text.map Char.toLower := by
  induction word generalizing text with
  | nil => simp [like_any]
  | cons c rest ih =>
    obtain ⟨hc, hrest⟩ := List.forall_mem_cons.1 hw
    have hany : c ≠ '%' := by
      rintro rfl
      exact absurd hc (by decide)
    have hone : c ≠ '_' := by
      rintro rfl
      exact absurd hc (by decide)
    cases text with
    | nil => simp [like, hany]
    | cons d text => simp [like, hany, hone, ih hrest]

theorem like_containing {word : List Char} (hw : ∀ c ∈ word, c.isAlphanum = true) (text : List Char) :
    like ('%' :: word ++ ['%']) text = true ↔ Occurs word text := by
  simp only [List.cons_append, like, if_true, List.any_eq_true, List.mem_tails, like_word hw, Occurs]
  constructor
  · rintro ⟨tail, ⟨before, rfl⟩, hprefix⟩
    rw [List.map_append]
    exact hprefix.isInfix.trans (List.suffix_append _ _).isInfix
  · rintro ⟨before, after, heq⟩
    rw [List.append_assoc] at heq
    obtain ⟨front, tail, rfl, _, htail⟩ := List.map_eq_append_iff.1 heq.symm
    exact ⟨tail, ⟨front, rfl⟩, after, htail.symm⟩

/-- AND: false if either is, true if both are. -/
def both : Option Bool → Option Bool → Option Bool
  | some false, _ | _, some false => some false
  | some true, some true => some true
  | _, _ => none

/-- OR: true if either is, false if both are. -/
def either : Option Bool → Option Bool → Option Bool
  | some true, _ | _, some true => some true
  | some false, some false => some false
  | _, _ => none

@[simp] theorem either_eq_true {x y : Option Bool} :
    either x y = some true ↔ x = some true ∨ y = some true := by
  rcases x with _ | _ | _ <;> rcases y with _ | _ | _ <;> decide

/-- A row, as a database reads it. Databases differ in how they order values, how they show numbers
as text, and which values other than numbers count as true. -/
structure Valuation where
  /-- The value of a column, `none` if it is NULL. -/
  column : Option String → String → Option Value
  computed : String → Option Value
  compare : Value → Value → Ordering
  /-- A value other than a text, as a text. -/
  shown : Value → String
  /-- Whether a value other than an integer counts as true. -/
  holds : Value → Bool

namespace Valuation

def text (row : Valuation) : Value → List Char
  | .text s => s.toList
  | v => (row.shown v).toList

def counts (row : Valuation) : Value → Bool
  | .integer n => n != 0
  | v => row.holds v

def relates (row : Valuation) : Operator → Value → Value → Bool
  | .eq, x, y => row.compare x y == .eq
  | .ne, x, y => row.compare x y != .eq
  | .lt, x, y => row.compare x y == .lt
  | .gt, x, y => row.compare x y == .gt
  | .le, x, y => row.compare x y != .gt
  | .ge, x, y => row.compare x y != .lt
  | .like, x, y => like (row.text y) (row.text x)
  | .and, x, y => row.counts x && row.counts y
  | .or, x, y => row.counts x || row.counts y

def related (row : Valuation) (op : Operator) (x y : Option Value) : Option Bool :=
  x.bind fun x => y.map fun y => row.relates op x y

def ofTruth (truth : Option Bool) : Option Value :=
  truth.map fun b => .integer (if b then 1 else 0)

def truthOf (row : Valuation) (x : Option Value) : Option Bool :=
  x.map row.counts

mutual

def eval (row : Valuation) : Expr → Option Value
  | .column table name => row.column table name
  | .literal l => l.value
  | .raw sql => row.computed sql
  | .group e => row.eval e
  | .binary .and left right => ofTruth (both (row.truthOf (row.eval left)) (row.truthOf (row.eval right)))
  | .binary .or left right => ofTruth (either (row.truthOf (row.eval left)) (row.truthOf (row.eval right)))
  | .binary op left right => ofTruth (row.related op (row.eval left) (row.eval right))
  | .oneOf e values => ofTruth (row.among (row.eval e) values)
  | .isNull e negated => ofTruth (some ((row.eval e).isNone != negated))
  | .never => ofTruth (some false)

def among (row : Valuation) (x : Option Value) : List Expr → Option Bool
  | [] => some false
  | value :: rest => either (row.related .eq x (row.eval value)) (row.among x rest)

end

def truth (row : Valuation) (e : Expr) : Option Bool :=
  row.truthOf (row.eval e)

variable (row : Valuation)

@[simp] theorem truthOf_ofTruth (truth : Option Bool) : row.truthOf (ofTruth truth) = truth := by
  rcases truth with _ | _ | _ <;> rfl

@[simp] theorem truth_group (e : Expr) : row.truth (.group e) = row.truth e := rfl

@[simp] theorem truth_never : row.truth .never = some false := rfl

@[simp] theorem truth_or (left right : Expr) :
    row.truth (.binary .or left right) = either (row.truth left) (row.truth right) :=
  row.truthOf_ofTruth _

@[simp] theorem truth_like (left right : Expr) :
    row.truth (.binary .like left right) = row.related .like (row.eval left) (row.eval right) :=
  row.truthOf_ofTruth _

@[simp] theorem truth_eq (left right : Expr) :
    row.truth (.binary .eq left right) = row.related .eq (row.eval left) (row.eval right) :=
  row.truthOf_ofTruth _

@[simp] theorem truth_isNull (e : Expr) (negated : Bool) :
    row.truth (.isNull e negated) = some ((row.eval e).isNone != negated) :=
  row.truthOf_ofTruth _

@[simp] theorem truth_oneOf (e : Expr) (values : List Expr) :
    row.truth (.oneOf e values) = row.among (row.eval e) values :=
  row.truthOf_ofTruth _

theorem among_eq_true {x : Option Value} {values : List Expr} : row.among x values = some true ↔
    ∃ value ∈ values, row.related .eq x (row.eval value) = some true := by
  induction values with
  | nil => simp [among]
  | cons value rest ih => rw [among, either_eq_true, ih, List.exists_mem_cons_iff]

theorem truth_foldl_or (e : Expr) (es : List Expr) : row.truth (es.foldl (.binary .or) e) = some true ↔
    ∃ e' ∈ e :: es, row.truth e' = some true := by
  induction es generalizing e with
  | nil => simp
  | cons first rest ih =>
    rw [List.foldl_cons, ih]
    simp [or_assoc]

theorem truth_anyGroup (es : List Expr) :
    row.truth (.anyGroup es) = some true ↔ ∃ e ∈ es, row.truth e = some true := by
  cases es with
  | nil => simp [Expr.anyGroup, Expr.any, Expr.reduce]
  | cons e rest => exact row.truth_foldl_or e rest

end Valuation

end Retrieval.Sql
