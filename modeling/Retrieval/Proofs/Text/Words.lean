import Mathlib.Data.List.Basic
import Retrieval.Text.Words

namespace Retrieval.Text

variable {p : Char → Bool} {cs piece before after : List Char} {c : Char}

/-- A stretch of a text without separators that cannot be extended on either side. -/
def Stretch (p : Char → Bool) (cs piece : List Char) : Prop :=
  (∀ c ∈ piece, p c = false) ∧ ∃ before after, cs = before ++ piece ++ after ∧
    (∀ c ∈ before.getLast?, p c = true) ∧ ∀ c ∈ after.head?, p c = true

theorem splitWhere_eq_splitOnP (p : Char → Bool) (cs : List Char) : splitWhere p cs = cs.splitOnP p := by
  induction cs with
  | nil => rw [splitWhere, List.splitOnP_nil]
  | cons first rest ih =>
    rw [List.splitOnP_cons_eq_if_modifyHead, splitWhere, ih]
    split
    · rfl
    · cases h : rest.splitOnP p with
      | nil => exact absurd h (List.splitOnP_ne_nil p rest)
      | cons head tail => rfl

theorem Stretch.append_left (h : Stretch p before piece) (hc : p c = true) (after : List Char) :
    Stretch p (before ++ c :: after) piece := by
  obtain ⟨hp, left, right, rfl, hl, hr⟩ := h
  refine ⟨hp, left, right ++ c :: after, by simp, hl, ?_⟩
  cases right with
  | nil => simpa using hc
  | cons first rest => simpa using hr

theorem Stretch.append_right (h : Stretch p after piece) (hc : p c = true) (before : List Char) :
    Stretch p (before ++ c :: after) piece := by
  obtain ⟨hp, left, right, rfl, hl, hr⟩ := h
  refine ⟨hp, before ++ c :: left, right, by simp, ?_, hr⟩
  rcases List.eq_nil_or_concat left with rfl | ⟨front, last, rfl⟩
  · simpa using hc
  · have hlast : p last = true := by simpa using hl
    intro d hd
    rw [show before ++ c :: front.concat last = (before ++ c :: front) ++ [last] by simp,
      List.getLast?_concat] at hd
    exact Option.some.inj hd ▸ hlast

theorem stretch_of_mem_splitOnP (h : piece ∈ cs.splitOnP p) : Stretch p cs piece := by
  induction hn : cs.length using Nat.strongRecOn generalizing cs with
  | ind n ih =>
    by_cases hs : ∃ c ∈ cs, p c = true
    · obtain ⟨c, hmem, hc⟩ := hs
      obtain ⟨before, after, rfl⟩ := List.append_of_mem hmem
      rw [List.length_append, List.length_cons] at hn
      rw [List.splitOnP_append_cons before after hc] at h
      cases List.mem_append.1 h with
      | inl h => exact (ih before.length (by omega) h rfl).append_left hc after
      | inr h => exact (ih after.length (by omega) h rfl).append_right hc before
    · have hnone : ∀ c ∈ cs, p c = false := by simpa using hs
      rw [List.splitOnP_eq_singleton hnone, List.mem_singleton] at h
      exact ⟨h ▸ hnone, [], [], by simp [h], by simp, by simp⟩

theorem Stretch.mem_splitOnP (h : Stretch p cs piece) : piece ∈ cs.splitOnP p := by
  obtain ⟨hp, before, after, rfl, hl, hr⟩ := h
  have hright : piece ∈ (piece ++ after).splitOnP p := by
    cases after with
    | nil => simp [List.splitOnP_eq_singleton hp]
    | cons c after => simp [List.splitOnP_append_cons piece after (hr c rfl), List.splitOnP_eq_singleton hp]
  rcases List.eq_nil_or_concat before with rfl | ⟨front, last, rfl⟩
  · simpa using hright
  · rw [show front.concat last ++ piece ++ after = front ++ last :: (piece ++ after) by simp,
      List.splitOnP_append_cons front _ (hl last (by simp))]
    exact List.mem_append_right _ hright

theorem mem_splitWhere : piece ∈ splitWhere p cs ↔ Stretch p cs piece := by
  rw [splitWhere_eq_splitOnP]
  exact ⟨stretch_of_mem_splitOnP, Stretch.mem_splitOnP⟩

theorem Stretch.mem_of_mem (h : Stretch p cs piece) (hc : c ∈ piece) : c ∈ cs := by
  obtain ⟨_, before, after, rfl, _⟩ := h
  simp [hc]

/-- A maximal run of ASCII letters and digits. -/
def IsWord (term word : List Char) : Prop :=
  word ≠ [] ∧ (∀ c ∈ word, isAsciiAlphanumeric c = true) ∧
    ∃ before after, term = before ++ word ++ after ∧
      (∀ c ∈ before.getLast?, isAsciiAlphanumeric c = false) ∧
      ∀ c ∈ after.head?, isAsciiAlphanumeric c = false

theorem mem_words {term word : List Char} : word ∈ words term ↔ IsWord term word := by
  rw [words, List.mem_filter, mem_splitWhere]
  simp only [Stretch, IsWord, Bool.not_eq_true', Bool.not_eq_false', List.isEmpty_eq_false_iff]
  tauto

theorem words_eq_nil {term : List Char} (h : ∀ w, ¬ IsWord term w) : words term = [] :=
  List.eq_nil_iff_forall_not_mem.2 fun w hw => h w (mem_words.1 hw)

theorem words_eq_singleton (hne : cs ≠ []) (h : ∀ c ∈ cs, isAsciiAlphanumeric c = true) : words cs = [cs] := by
  have hword : ∀ c ∈ cs, (!isAsciiAlphanumeric c) = false := fun c hc => by rw [h c hc, Bool.not_true]
  rw [words, splitWhere_eq_splitOnP, List.splitOnP_eq_singleton hword]
  simp [hne]

theorem words_append_cons (hc : isAsciiAlphanumeric c = false) (before after : List Char) :
    words (before ++ c :: after) = words before ++ words after := by
  rw [words, splitWhere_eq_splitOnP, List.splitOnP_append_cons before after (by simp [hc]), List.filter_append,
    ← splitWhere_eq_splitOnP, ← splitWhere_eq_splitOnP]
  rfl

theorem cutAt?_eq_none {mark : Char} (h : mark ∉ cs) : cutAt? mark cs = none := by
  induction cs with
  | nil => rfl
  | cons c rest ih =>
    rw [List.mem_cons, not_or] at h
    rw [cutAt?, if_neg (Ne.symm h.1), ih h.2]
    rfl

theorem cutAt?_eq_some {mark : Char} :
    cutAt? mark cs = some (before, after) ↔ cs = before ++ mark :: after ∧ mark ∉ before := by
  induction cs generalizing before with
  | nil => simp [cutAt?]
  | cons first rest ih =>
    by_cases hfirst : first = mark
    · subst hfirst
      cases before with
      | nil => simp [cutAt?, eq_comm]
      | cons head tail =>
        simp only [cutAt?, if_true, Option.some.injEq, Prod.mk.injEq, List.nil_eq, reduceCtorEq,
          false_and, false_iff, List.cons_append, List.cons.injEq, not_and]
        rintro ⟨rfl, _⟩ hmem
        exact hmem List.mem_cons_self
    · cases before with
      | nil => simp [cutAt?, hfirst]
      | cons head tail =>
        simp only [cutAt?, if_neg hfirst, Option.map_eq_some_iff, Prod.mk.injEq, List.cons.injEq,
          List.cons_append, List.mem_cons, not_or]
        constructor
        · rintro ⟨⟨tail', after'⟩, hcut, ⟨rfl, rfl⟩, rfl⟩
          obtain ⟨hrest, hmem⟩ := ih.1 hcut
          exact ⟨⟨rfl, hrest⟩, Ne.symm hfirst, hmem⟩
        · rintro ⟨⟨rfl, hrest⟩, _, hmem⟩
          exact ⟨(tail, after), ih.2 ⟨hrest, hmem⟩, ⟨rfl, rfl⟩, rfl⟩

end Retrieval.Text
