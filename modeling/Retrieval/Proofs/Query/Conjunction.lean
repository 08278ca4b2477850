import Retrieval.Proofs.Model.Loading
import Retrieval.Proofs.Query.Filter
import Retrieval.Proofs.Sql.ReaderSound
import Retrieval.Proofs.Text.Bytes

namespace Retrieval

open Sql

theorem apart_isBracket : Placeholder.Apart isBracket := by
  refine ⟨rfl, rfl, ?_⟩
  intro c hc
  rw [← Bool.not_eq_true]
  intro hb
  simp only [isBracket, Bool.or_eq_true, beq_iff_eq] at hb
  rcases hb with (rfl | rfl) | rfl <;> exact absurd hc (by decide)

/-- The expression of a computed member closes the quotes and parentheses that it opens. -/
def Member.Balanced : Member → Prop
  | .plain _ => True
  | .computed c => Sql.Balanced c.query.toList

instance : DecidablePred Member.Balanced
  | .plain _ => inferInstanceAs (Decidable True)
  | .computed c => inferInstanceAs (Decidable (Sql.Balanced c.query.toList))

namespace SelectedField

variable {f : SelectedField} {e : Expr}

@[simp] theorem asWritten_operand (f : SelectedField) : f.operand.asWritten = f.operand := by
  unfold operand
  split <;> rfl

/-- The operand of a member stands next to any operator: a computed one is in parentheses, which
nothing in it closes. -/
theorem Shows.tight {m : Model} {raw : JoinGraph → String → Prop} {base : String} {g : JoinGraph}
    (hg : JoinGraph.Grows m raw (.new base) g) {x : Member} (h : f.Shows m g x) (hb : x.Balanced) :
    f.operand.Tight 4 := by
  cases x with
  | plain path =>
    cases h with
    | plain => exact .column _ _
  | computed c =>
    obtain ⟨sql, hsource, hfilter⟩ := h.filter_eq hg apart_isBracket
    rw [operand, hsource]
    exact .text (balanced_of_filter_eq hfilter hb)

theorem Test.tight (hf : f.operand.Tight 4) (h : f.Test e) : e.asWritten.Tight 3 := by
  have hoperand : f.operand.Tight 3 := .weaken (by decide) hf
  cases h with
  | @compare op l ho =>
    rw [Expr.asWritten, asWritten_operand, Expr.asWritten]
    have hs : op.strength = 3 := by cases op <;> first | rfl | cases ho
    rw [← hs]
    exact .binary (hs ▸ hoperand) (.weaken (by omega) (.literal l))
  | oneOf ls =>
    cases ls with
    | nil => exact .never
    | cons l rest =>
      rw [List.map_cons, Expr.asWritten, asWritten_operand, Expr.asWritten, Expr.allAsWritten_eq_map,
        List.map_map]
      refine .oneOf hoperand (.weaken (by decide) (.literal l)) ?_
      intro value hv
      obtain ⟨l, _, rfl⟩ := List.mem_map.1 hv
      exact .weaken (by decide) (.literal l)
  | isNull negated =>
    rw [Expr.asWritten, asWritten_operand]
    exact .isNull negated hoperand

end SelectedField

/-- A predicate stands next to AND: its own alternatives are in parentheses. -/
theorem Selection.Predicate.tight {p : Selection} (hp : ∀ f ∈ p.fields, f.operand.Tight 4) {e : Expr}
    (h : p.Predicate e) : e.asWritten.Tight 3 := by
  cases h with
  | test hf he => exact he.tight (hp _ hf)
  | @anyGroup es hs =>
    rw [Expr.asWritten_anyGroup]
    apply Expr.Tight.weaken (k := 4) (by decide)
    apply Expr.Tight.anyGroup
    intro e he
    obtain ⟨e, hmem, rfl⟩ := List.mem_map.1 he
    obtain ⟨f, hf, ht⟩ := hs e hmem
    exact .weaken (by decide) (ht.tight (hp f hf))

namespace Query

variable {m : Model} {r : Request} {q : Query} {parts : Parts}

theorem Parts.Make.tight (h : parts.Make m r q) (hb : ∀ x ∈ parts.members, x.Balanced) :
    ∀ f ∈ parts.selection.fields, f.operand.Tight 4 := by
  intro f hf
  obtain ⟨x, hx, hshows⟩ := exists_mem_left h.shows hf
  exact hshows.tight h.grows (hb x (Selection.mem_of_mem_firsts hx))

end Query

end Retrieval
