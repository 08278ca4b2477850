import Mathlib.Data.List.Range
import Retrieval.Text.Positional

namespace Retrieval.Positional

/-- How many question marks of a template have an even number of quotes before them. -/
def questionMarks (template : String) : Nat :=
  (List.range template.toList.length).countP fun i =>
    template.toList[i]? == some '?' && (template.toList.take i).count '\'' % 2 == 0

theorem countP_scan (before : Nat) (cs : List Char) :
    (scan (before % 2 == 1) cs).countP (· == .hole) =
      (List.range cs.length).countP fun i =>
        cs[i]? == some '?' && (before + (cs.take i).count '\'') % 2 == 0 := by
  induction cs generalizing before with
  | nil => rfl
  | cons c rest ih =>
    rw [List.length_cons, List.range_succ_eq_map, List.countP_cons, List.countP_map]
    simp only [scan]
    split
    · -- the quote changes the parity for all that follows
      rename_i hc
      have hn : (!(before % 2 == 1)) = ((before + 1) % 2 == 1) := by
        cases Nat.mod_two_eq_zero_or_one before with
        | inl h | inr h => simp [Nat.add_mod, h]
      rw [hn, List.countP_cons, ih]
      subst hc
      simp [Function.comp_def, Nat.add_assoc, Nat.add_comm 1]
    · rename_i hc
      split
      · rename_i hq
        simp only [Bool.and_eq_true, decide_eq_true_eq, Bool.not_eq_true'] at hq
        obtain ⟨rfl, hq⟩ := hq
        have hb : before % 2 = 0 := by
          have := beq_eq_false_iff_ne.1 hq
          omega
        rw [List.countP_cons, ih]
        simp [Function.comp_def, hb]
      · rename_i hq
        have hz : (c == '?' && before % 2 == 0) = false := by
          cases Nat.mod_two_eq_zero_or_one before with
          | inl h | inr h => simp_all
        rw [List.countP_cons, ih]
        simp [Function.comp_def, List.count_cons_of_ne hc, hz]

theorem count_eq_questionMarks (template : String) : count template = questionMarks template := by
  have h := countP_scan 0 template.toList
  simp only [Nat.zero_add] at h
  exact h

end Retrieval.Positional
