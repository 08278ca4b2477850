import Retrieval.Proofs.Sql.Quoting
import Retrieval.Sql.Select

namespace Retrieval.Sql

open List (Forall₂)

/-- Tokens that are the same and leave no literal open, or text literals both. -/
inductive Token.Alike : Token → Token → Prop
  | same {t : Token} (h : ClosesQuotes t.text.toList) : Alike t t
  | text (s s' : String) : Alike (.literal (.text s)) (.literal (.text s'))

instance (cs : List Char) : Decidable (ClosesQuotes cs) :=
  inferInstanceAs (Decidable (_ = _))

theorem Token.Alike.literal (l : Literal) : Token.Alike (.literal l) (.literal l) := by
  apply Token.Alike.same
  rw [Token.text, Literal.sql, String.toList_ofList]
  exact l.closesQuotes

theorem Token.Alike.name {n : String} (h : '\'' ∉ n.toList) : Token.Alike (.name n) (.name n) :=
  .same (closesQuotes_of_notMem h)

def Token.isFixed : Token → Bool
  | .name _ | .raw _ => false
  | _ => true

theorem Token.Alike.fixed {t : Token} (h : t.isFixed = true) : t.Alike t := by
  cases t with
  | name n | raw sql => cases h
  | literal l => exact .literal l
  | count n =>
    apply Token.Alike.same
    rw [Token.text, String.toList_ofList]
    exact closesQuotes_of_notMem fun hq => not_isNumeral_quote (isNumeral_of_mem_digitChars hq)
  | _ => exact .same (by decide +kernel)

theorem alike_fixed {ts : List Token} (h : ts.all Token.isFixed = true) : Forall₂ Token.Alike ts ts :=
  List.forall₂_same.2 fun t ht => .fixed (List.all_eq_true.1 h t ht)

theorem Token.Alike.read {t t' : Token} (h : t.Alike t') {mode : Mode} (hm : mode ≠ .inside) :
    mode.erase t.text.toList = mode.erase t'.text.toList ∧
      mode.read t.text.toList = mode.read t'.text.toList ∧ mode.read t.text.toList ≠ .inside := by
  cases h with
  | same hb => exact ⟨rfl, rfl, Mode.read_ne_inside hm hb⟩
  | text s s' =>
    have htext : ∀ s : String, (Token.literal (.text s)).text.toList = quoteChars s.toList := by
      intro s
      rw [Token.text, Literal.sql, String.toList_ofList, Literal.chars]
    rw [htext, htext, Mode.erase_quoteChars hm, Mode.erase_quoteChars hm, Mode.read_quoteChars hm,
      Mode.read_quoteChars hm]
    exact ⟨rfl, rfl, by decide⟩

theorem read_alike {ts ts' : List Token} (h : Forall₂ Token.Alike ts ts') {mode : Mode}
    (hm : mode ≠ .inside) :
    mode.erase (ts.flatMap (·.text.toList)) = mode.erase (ts'.flatMap (·.text.toList)) ∧
      mode.read (ts.flatMap (·.text.toList)) = mode.read (ts'.flatMap (·.text.toList)) ∧
      mode.read (ts.flatMap (·.text.toList)) ≠ .inside := by
  induction h generalizing mode with
  | nil => exact ⟨rfl, rfl, hm⟩
  | cons ht _ ih =>
    obtain ⟨he, hr, hn⟩ := ht.read hm
    obtain ⟨hes, hrs, hns⟩ := ih hn
    simp only [List.flatMap_cons, Mode.erase_append, Mode.read_append]
    rw [← he, ← hr, hes]
    exact ⟨rfl, hrs, hns⟩

/-- Without their literals, texts of tokens that are alike are the same, and none leaves a literal
open. -/
theorem erase_render {ts ts' : List Token} (h : Forall₂ Token.Alike ts ts') :
    erase (render ts) = erase (render ts') ∧ EndsOutside (render ts) ∧ EndsOutside (render ts') := by
  have hmode : Mode.outside ≠ .inside := by decide
  obtain ⟨he, hr, hn⟩ := read_alike h hmode
  simp only [erase, EndsOutside, render, String.toList_ofList]
  exact ⟨he, hn, hr ▸ hn⟩

namespace Expr

def Alike (e e' : Expr) : Prop :=
  Forall₂ Token.Alike e.tokens e'.tokens

variable {e e' left left' right right' : Expr} {es es' : List Expr}

theorem Alike.literal {l l' : Literal} (h : Token.Alike (.literal l) (.literal l')) :
    (Expr.literal l).Alike (.literal l') :=
  .cons h .nil

theorem Alike.column {table : Option String} {name : String} (ht : ∀ t ∈ table, '\'' ∉ t.toList)
    (hn : '\'' ∉ name.toList) : (Expr.column table name).Alike (.column table name) := by
  cases table with
  | none => exact .cons (.name hn) .nil
  | some t => exact .cons (.name (ht t rfl)) (.cons (.fixed rfl) (.cons (.name hn) .nil))

theorem Alike.raw {sql : String} (h : ClosesQuotes sql.toList) : (Expr.raw sql).Alike (.raw sql) :=
  .cons (.same h) .nil

theorem Alike.group (h : e.Alike e') : (Expr.group e).Alike (.group e') :=
  .cons (.fixed rfl) (List.rel_append h (alike_fixed rfl))

theorem Alike.binary (op : Operator) (hl : left.Alike left') (hr : right.Alike right') :
    (Expr.binary op left right).Alike (.binary op left' right') := by
  have hop : [.space, op.token, .space].all Token.isFixed = true := by
    cases op <;> rfl
  rw [Alike, tokens, tokens]
  exact List.rel_append (List.rel_append hl (alike_fixed hop)) hr

theorem Alike.isNull (h : e.Alike e') (negated : Bool) : (isNull e negated).Alike (.isNull e' negated) := by
  rw [Alike, tokens, tokens]
  refine List.rel_append (List.rel_append (List.rel_append h (alike_fixed rfl)) ?_) (alike_fixed rfl)
  cases negated <;> exact alike_fixed rfl

theorem alike_moreTokens (h : Forall₂ Alike es es') :
    Forall₂ Token.Alike (moreTokens es) (moreTokens es') := by
  induction h with
  | nil => exact .nil
  | cons he _ ih => exact .cons (.fixed rfl) (.cons (.fixed rfl) (List.rel_append he ih))

theorem Alike.oneOf (he : e.Alike e') (hs : Forall₂ Alike es es') :
    (Expr.oneOf e es).Alike (.oneOf e' es') := by
  cases hs with
  | nil => exact alike_fixed rfl
  | cons hv hs =>
    rw [Alike, tokens, tokens]
    exact List.rel_append (List.rel_append (List.rel_append (List.rel_append he (alike_fixed rfl)) hv)
      (alike_moreTokens hs)) (alike_fixed rfl)

theorem alike_foldl (op : Operator) (he : e.Alike e') (hs : Forall₂ Alike es es') :
    (es.foldl (.binary op) e).Alike (es'.foldl (.binary op) e') := by
  induction hs generalizing e e' with
  | nil => exact he
  | cons hf _ ih => exact ih (he.binary op hf)

theorem alike_reduce (op : Operator) (hs : Forall₂ Alike es es') :
    Option.Rel Alike (reduce op es) (reduce op es') := by
  cases hs with
  | nil => exact .none
  | cons he hs => exact .some (alike_foldl op he hs)

theorem Alike.anyGroup (hs : Forall₂ Alike es es') : (Expr.anyGroup es).Alike (.anyGroup es') := by
  have hany := alike_reduce .or hs
  rw [Expr.anyGroup, Expr.anyGroup, any, any]
  apply Alike.group
  generalize reduce .or es = found, reduce .or es' = found' at hany
  cases hany with
  | none => exact alike_fixed rfl
  | some h => exact h

end Expr

theorem alike_separate {between : List Token} {items : List (List Token)}
    (hb : Forall₂ Token.Alike between between) (hi : ∀ ts ∈ items, Forall₂ Token.Alike ts ts) :
    Forall₂ Token.Alike (separate between items) (separate between items) := by
  induction items using separate.induct with
  | case1 => exact .nil
  | case2 item => exact hi item List.mem_cons_self
  | case3 item rest hrest ih =>
    rw [separate]
    · exact List.rel_append (List.rel_append (hi item List.mem_cons_self) hb)
        (ih fun ts ht => hi ts (List.mem_cons_of_mem _ ht))
    · exact hrest

theorem Table.alike_tokens {t : Table} (hn : '\'' ∉ t.name.toList)
    (ha : ∀ a ∈ t.aliasName, '\'' ∉ a.toList) :
    Forall₂ Token.Alike t.tokens t.tokens := by
  obtain ⟨name, aliasName⟩ := t
  cases aliasName with
  | none => exact .cons (.name hn) .nil
  | some a => exact .cons (.name hn) (.cons (.fixed rfl) (.cons (.name (ha a rfl)) .nil))

theorem Join.alike_tokens_left {t : Table} {on : Expr} (ht : Forall₂ Token.Alike t.tokens t.tokens)
    (ho : on.Alike on) : Forall₂ Token.Alike (Join.left t on).tokens (Join.left t on).tokens :=
  List.rel_append (List.rel_append (List.rel_append (alike_fixed rfl) ht) (alike_fixed rfl)) ho

theorem Item.alike_tokens {i : Item} (he : i.expr.Alike i.expr) (hl : ∀ l ∈ i.label, '\'' ∉ l.toList) :
    Forall₂ Token.Alike i.tokens i.tokens := by
  obtain ⟨e, label⟩ := i
  cases label with
  | none => exact List.rel_append he .nil
  | some l =>
    exact List.rel_append he (.cons (.fixed rfl) (.cons (.fixed rfl)
      (.cons (.fixed rfl) (.cons (.name (hl l rfl)) .nil))))

theorem Order.alike_tokens {o : Order} (he : o.expr.Alike o.expr) :
    Forall₂ Token.Alike o.tokens o.tokens := by
  obtain ⟨e, direction⟩ := o
  cases direction <;> exact List.rel_append he (alike_fixed rfl)

theorem Select.alike_tokens {s s' : Select} (hs : s' = { s with filter := s'.filter })
    (hitems : ∀ i ∈ s.items, Forall₂ Token.Alike i.tokens i.tokens)
    (hsource : ∀ t ∈ s.source, Forall₂ Token.Alike t.tokens t.tokens)
    (hjoins : ∀ j ∈ s.joins, Forall₂ Token.Alike j.tokens j.tokens)
    (hfilter : Option.Rel Expr.Alike s.filter s'.filter)
    (horder : ∀ o ∈ s.order, Forall₂ Token.Alike o.tokens o.tokens) :
    Forall₂ Token.Alike s.tokens s'.tokens := by
  rw [hs]
  generalize s'.filter = filter' at hfilter
  simp only [Select.tokens]
  refine List.rel_append (List.rel_append (List.rel_append (List.rel_append (List.rel_append
    (.cons (.fixed rfl) ?items) ?source) ?joins) ?filter) ?order) ?page
  case items =>
    apply alike_separate (alike_fixed rfl)
    intro ts ht
    obtain ⟨i, hi, rfl⟩ := List.mem_map.1 ht
    exact .cons (.fixed rfl) (hitems i hi)
  case source =>
    cases h : s.source with
    | none => exact .nil
    | some table => exact List.rel_append (alike_fixed rfl) (hsource table h)
  case joins =>
    rw [List.forall₂_same]
    intro t ht
    obtain ⟨j, hj, ht⟩ := List.mem_flatMap.1 ht
    cases List.mem_cons.1 ht with
    | inl he => exact he ▸ .fixed rfl
    | inr hmem => exact List.forall₂_same.1 (hjoins j hj) t hmem
  case filter =>
    generalize s.filter = filter at hfilter
    cases hfilter with
    | none => exact .nil
    | some h => exact List.rel_append (alike_fixed rfl) h
  case order =>
    split
    · exact .nil
    · apply List.rel_append (alike_fixed rfl)
      apply alike_separate (alike_fixed rfl)
      intro ts ht
      obtain ⟨o, ho, rfl⟩ := List.mem_map.1 ht
      exact horder o ho
  case page =>
    obtain ⟨limit, offset⟩ := s.page
    cases limit <;> cases offset <;> exact alike_fixed rfl

end Retrieval.Sql
