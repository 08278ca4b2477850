import Mathlib.Data.List.Perm.Basic
import Retrieval.Proofs.Text.Words

namespace Retrieval.Text

def IsAlphanumeric (c : Char) : Prop :=
  'A' ≤ c ∧ c ≤ 'Z' ∨ 'a' ≤ c ∧ c ≤ 'z' ∨ '0' ≤ c ∧ c ≤ '9'

def InWord (text : List Char) (i : Nat) : Prop :=
  ∃ c, text[i]? = some c ∧ IsAlphanumeric c

/-- The indices of a text from one up to another belong to a word, and neither of those next to them does. -/
structure IsRun (text : List Char) (start stop : Nat) : Prop where
  nonempty : start < stop
  inside : ∀ i, start ≤ i → i < stop → InWord text i
  front : ∀ i, i + 1 = start → ¬ InWord text i
  behind : ¬ InWord text stop

/-- Where the words of a text stand, from left to right. -/
structure Places (text : List Char) (found : List (List Char)) (runs : List (Nat × Nat)) : Prop where
  increasing : runs.Pairwise fun a b => a.1 < b.1
  exact : ∀ start stop, (start, stop) ∈ runs ↔ IsRun text start stop
  read : runs.map (fun run => text.extract run.1 run.2) = found

/-- A word and what stands in front of it, up to the word before. -/
structure Segment where
  gap : List Char
  word : List Char
  outside : ∀ c ∈ gap, ¬ IsAlphanumeric c
  inside : ∀ c ∈ word, IsAlphanumeric c
  nonempty : word ≠ []

namespace Segment

def text (s : Segment) : List Char :=
  s.gap ++ s.word

def letter (c : Char) (hc : IsAlphanumeric c) : Segment where
  gap := []
  word := [c]
  outside := by simp
  inside := by simpa using hc
  nonempty := by simp

def lengthen (s : Segment) (c : Char) (hc : IsAlphanumeric c) : Segment where
  gap := s.gap
  word := c :: s.word
  outside := s.outside
  inside := List.forall_mem_cons.2 ⟨hc, s.inside⟩
  nonempty := by simp

def widen (s : Segment) (c : Char) (hc : ¬ IsAlphanumeric c) : Segment where
  gap := c :: s.gap
  word := s.word
  outside := List.forall_mem_cons.2 ⟨hc, s.outside⟩
  inside := s.inside
  nonempty := s.nonempty

end Segment

/-- Words written one after the other. Only the first of them may have nothing in front of it. -/
structure Spacing where
  segments : List Segment
  apart : ∀ s ∈ segments.tail, s.gap ≠ []
  behind : List Char
  outside : ∀ c ∈ behind, ¬ IsAlphanumeric c

namespace Spacing

def text (s : Spacing) : List Char :=
  s.segments.flatMap Segment.text ++ s.behind

def words (s : Spacing) : List (List Char) :=
  s.segments.map Segment.word

end Spacing

variable {c : Char} {text gap before rest : List Char} {i start stop : Nat} {found found' : List (List Char)}
  {runs runs' : List (Nat × Nat)} {segments : List Segment}

theorem isAsciiAlphanumeric_iff : isAsciiAlphanumeric c = true ↔ IsAlphanumeric c := by
  have hupper : c.isUpper = true ↔ 'A' ≤ c ∧ c ≤ 'Z' := decide_eq_true_iff
  have hlower : c.isLower = true ↔ 'a' ≤ c ∧ c ≤ 'z' :=
    Bool.and_eq_true_iff.trans (and_congr decide_eq_true_iff decide_eq_true_iff)
  have hdigit : c.isDigit = true ↔ '0' ≤ c ∧ c ≤ '9' :=
    Bool.and_eq_true_iff.trans (and_congr decide_eq_true_iff decide_eq_true_iff)
  change (c.isUpper || c.isLower || c.isDigit) = true ↔ _
  rw [Bool.or_eq_true, Bool.or_eq_true, hupper, hlower, hdigit, or_assoc, IsAlphanumeric]

theorem isAsciiAlphanumeric_eq_false : isAsciiAlphanumeric c = false ↔ ¬ IsAlphanumeric c := by
  rw [← isAsciiAlphanumeric_iff, Bool.not_eq_true]

theorem inWord_length_add : InWord (before ++ text) (before.length + i) ↔ InWord text i := by
  rw [InWord, List.getElem?_append_right (Nat.le_add_right _ _), Nat.add_sub_cancel_left, InWord]

theorem not_inWord_of_outside (h : ∀ c ∈ text, ¬ IsAlphanumeric c) : ¬ InWord text i := by
  rintro ⟨c, hc, halphanum⟩
  exact h c (List.mem_of_getElem? hc) halphanum

theorem Segment.length_text (s : Segment) : s.text.length = s.gap.length + s.word.length :=
  List.length_append

theorem Segment.gap_lt (s : Segment) : s.gap.length < s.text.length := by
  have hword := List.length_pos_iff.2 s.nonempty
  rw [s.length_text]
  omega

theorem Segment.inWord_append_iff (s : Segment) (hi : i < s.text.length) :
    InWord (s.text ++ rest) i ↔ s.gap.length ≤ i := by
  rw [InWord, List.getElem?_append_left hi, Segment.text]
  by_cases hgap : i < s.gap.length
  · rw [List.getElem?_append_left hgap]
    exact iff_of_false (not_inWord_of_outside s.outside) (by omega)
  · have hword : i - s.gap.length < s.word.length := by
      rw [s.length_text] at hi
      omega
    rw [List.getElem?_append_right (by omega), List.getElem?_eq_getElem hword]
    exact iff_of_true ⟨_, rfl, s.inside _ (List.getElem_mem hword)⟩ (by omega)

/-- Text in front of a run moves it, if the run cannot grow into that text. -/
theorem isRun_length_add (hrest : ¬ InWord rest 0) :
    IsRun (before ++ rest) (before.length + start) (before.length + stop) ↔ IsRun rest start stop := by
  constructor
  · intro h
    refine ⟨Nat.lt_of_add_lt_add_left h.nonempty, fun i hstart hstop => ?_, fun i hi hin => ?_, fun hin => ?_⟩
    · exact inWord_length_add.1 (h.inside (before.length + i) (by omega) (by omega))
    · exact h.front (before.length + i) (by omega) (inWord_length_add.2 hin)
    · exact h.behind (inWord_length_add.2 hin)
  · intro h
    -- a run at the very start could be extended to the front
    have hpos : start ≠ 0 := by
      rintro rfl
      exact hrest (h.inside 0 (Nat.le_refl 0) h.nonempty)
    refine ⟨Nat.add_lt_add_left h.nonempty _, fun i hstart hstop => ?_, fun i hi hin => ?_, fun hin => ?_⟩
    · obtain ⟨j, rfl⟩ := Nat.exists_eq_add_of_le (Nat.le_of_add_right_le hstart)
      exact inWord_length_add.2 (h.inside j (by omega) (by omega))
    · obtain ⟨j, rfl⟩ := Nat.exists_eq_add_of_le (show before.length ≤ i by omega)
      exact h.front j (by omega) (inWord_length_add.1 hin)
    · exact h.behind (inWord_length_add.1 hin)

theorem Segment.isRun_append_iff (s : Segment) (hrest : ¬ InWord rest 0) : IsRun (s.text ++ rest) start stop ↔
    start = s.gap.length ∧ stop = s.text.length ∨
      ∃ a b, IsRun rest a b ∧ start = s.text.length + a ∧ stop = s.text.length + b := by
  have hend : ¬ InWord (s.text ++ rest) s.text.length := fun h => hrest (inWord_length_add.1 h)
  constructor
  · intro h
    -- a run that begins in the segment is all of its word, for it covers no more and cannot be extended
    by_cases hstart : start < s.text.length
    · have hgap : s.gap.length ≤ start :=
        (s.inWord_append_iff hstart).1 (h.inside start (Nat.le_refl start) h.nonempty)
      have hfront : start = s.gap.length := by
        by_contra hne
        obtain ⟨i, rfl⟩ := Nat.exists_eq_add_one_of_ne_zero (show start ≠ 0 by omega)
        exact h.front i rfl ((s.inWord_append_iff (by omega)).2 (by omega))
      refine .inl ⟨hfront, ?_⟩
      rcases Nat.lt_trichotomy stop s.text.length with hlt | heq | hgt
      · exact absurd ((s.inWord_append_iff hlt).2 (by have := h.nonempty; omega)) h.behind
      · exact heq
      · exact absurd (h.inside _ (Nat.le_of_lt hstart) hgt) hend
    · obtain ⟨a, rfl⟩ := Nat.exists_eq_add_of_le (Nat.le_of_not_lt hstart)
      obtain ⟨b, rfl⟩ := Nat.exists_eq_add_of_le (show s.text.length ≤ stop by have := h.nonempty; omega)
      exact .inr ⟨a, b, (isRun_length_add hrest).1 h, rfl, rfl⟩
  · rintro (⟨rfl, rfl⟩ | ⟨a, b, h, rfl, rfl⟩)
    · refine ⟨s.gap_lt, fun i hstart hstop => (s.inWord_append_iff hstop).2 hstart, fun i hi hin => ?_, hend⟩
      have hle := (s.inWord_append_iff (by have := s.gap_lt; omega)).1 hin
      omega
    · exact (isRun_length_add hrest).2 h

namespace Places

theorem nil (h : ∀ c ∈ text, ¬ IsAlphanumeric c) : Places text [] [] where
  increasing := .nil
  exact := by
    intro start stop
    refine iff_of_false List.not_mem_nil fun hrun => ?_
    exact not_inWord_of_outside h (hrun.inside start (Nat.le_refl start) hrun.nonempty)
  read := rfl

theorem cons (s : Segment) (hrest : ¬ InWord rest 0) (h : Places rest found runs) :
    Places (s.text ++ rest) (s.word :: found) ((s.gap.length, s.text.length) ::
      runs.map fun run => (s.text.length + run.1, s.text.length + run.2)) where
  increasing := by
    rw [List.pairwise_cons, List.pairwise_map]
    refine ⟨?_, h.increasing.imp (Nat.add_lt_add_left · _)⟩
    rintro _ hrun
    obtain ⟨run, _, rfl⟩ := List.mem_map.1 hrun
    exact Nat.lt_add_right run.1 s.gap_lt
  exact := by
    intro start stop
    rw [s.isRun_append_iff hrest]
    simp only [List.mem_cons, List.mem_map, Prod.mk.injEq, Prod.exists, h.exact, eq_comm (a := start),
      eq_comm (a := stop)]
  read := by
    rw [List.map_cons, List.map_map, ← h.read]
    congr 1
    · rw [List.extract_eq_take_drop, Segment.text, List.append_assoc, List.drop_append_length, List.length_append,
        Nat.add_sub_cancel_left, List.take_append_length]
    · apply List.map_congr_left
      intro run _
      simp only [Function.comp, List.extract_eq_take_drop, List.drop_length_add_append, Nat.add_sub_add_left]

theorem nodup (h : Places text found runs) : runs.Nodup := by
  refine h.increasing.imp ?_
  rintro a _ hlt rfl
  exact Nat.lt_irrefl a.1 hlt

theorem unique (h : Places text found runs) (h' : Places text found' runs') : found = found' := by
  have hperm : runs.Perm runs' := by
    rw [List.perm_ext_iff_of_nodup h.nodup h'.nodup]
    rintro ⟨start, stop⟩
    rw [h.exact, h'.exact]
  have hruns : runs = runs' :=
    hperm.eq_of_pairwise (fun _ _ _ _ hlt hgt => absurd hlt (Nat.lt_asymm hgt)) h.increasing h'.increasing
  rw [← h.read, ← h'.read, hruns]

end Places

theorem words_outside_append (h : ∀ c ∈ gap, ¬ IsAlphanumeric c) (rest : List Char) :
    words (gap ++ rest) = words rest := by
  induction gap with
  | nil => rfl
  | cons c gap ih =>
    obtain ⟨hc, hgap⟩ := List.forall_mem_cons.1 h
    exact (words_append_cons (isAsciiAlphanumeric_eq_false.2 hc) [] _).trans (ih hgap)

theorem Segment.words_append (s : Segment) (hrest : ¬ InWord rest 0) :
    words (s.text ++ rest) = s.word :: words rest := by
  have hword : words s.word = [s.word] :=
    words_eq_singleton s.nonempty fun c hc => isAsciiAlphanumeric_iff.2 (s.inside c hc)
  rw [Segment.text, List.append_assoc, words_outside_append s.outside]
  cases rest with
  | nil =>
    rw [List.append_nil, hword]
    rfl
  | cons c rest =>
    have hc : isAsciiAlphanumeric c = false :=
      isAsciiAlphanumeric_eq_false.2 fun halphanum => hrest ⟨c, rfl, halphanum⟩
    have hbehind : words (c :: rest) = words rest := words_append_cons hc [] rest
    rw [words_append_cons hc, hword, hbehind, List.singleton_append]

theorem not_inWord_zero {behind : List Char} (hgaps : ∀ s ∈ segments, s.gap ≠ [])
    (hbehind : ∀ c ∈ behind, ¬ IsAlphanumeric c) : ¬ InWord (segments.flatMap Segment.text ++ behind) 0 := by
  cases segments with
  | nil => exact not_inWord_of_outside hbehind
  | cons s segments =>
    have hgap := List.length_pos_iff.2 (hgaps s List.mem_cons_self)
    rw [List.flatMap_cons, List.append_assoc, s.inWord_append_iff (Nat.zero_lt_of_lt s.gap_lt)]
    omega

namespace Spacing

/-- What holds of a text without words, and goes over from what follows a segment to the segment with what follows
it, holds of every text and the words written in it. -/
theorem induction {motive : List Char → List (List Char) → Prop}
    (nil : ∀ text, (∀ c ∈ text, ¬ IsAlphanumeric c) → motive text [])
    (cons : ∀ (s : Segment) rest found, ¬ InWord rest 0 → motive rest found →
      motive (s.text ++ rest) (s.word :: found)) (s : Spacing) : motive s.text s.words := by
  obtain ⟨segments, hapart, behind, hbehind⟩ := s
  simp only [text, words]
  induction segments with
  | nil => exact nil behind hbehind
  | cons s segments ih =>
    rw [List.flatMap_cons, List.append_assoc, List.map_cons]
    exact cons s _ _ (not_inWord_zero hapart hbehind) (ih fun t ht => hapart t (List.mem_of_mem_tail ht))

theorem words_text (s : Spacing) : Text.words s.text = s.words := by
  refine s.induction (motive := fun text found => Text.words text = found) ?nil ?cons
  case nil =>
    intro text h
    rw [← List.append_nil text, words_outside_append h]
    rfl
  case cons =>
    intro s rest found hrest ih
    rw [s.words_append hrest, ih]

theorem exists_places (s : Spacing) : ∃ runs, Places s.text s.words runs := by
  refine s.induction (motive := fun text found => ∃ runs, Places text found runs) ?nil ?cons
  case nil => exact fun text h => ⟨[], .nil h⟩
  case cons =>
    rintro s rest found hrest ⟨runs, h⟩
    exact ⟨_, h.cons s hrest⟩

theorem exists_letter (s : Spacing) (hc : IsAlphanumeric c) : ∃ s' : Spacing, s'.text = c :: s.text := by
  obtain ⟨segments, hapart, behind, hbehind⟩ := s
  cases segments with
  | nil => exact ⟨⟨[.letter c hc], by simp, behind, hbehind⟩, rfl⟩
  | cons s segments =>
    -- the letter belongs to the word behind it only if nothing stands between them
    by_cases hgap : s.gap = []
    · refine ⟨⟨s.lengthen c hc :: segments, hapart, behind, hbehind⟩, ?_⟩
      simp only [text, List.flatMap_cons, Segment.text, Segment.lengthen, hgap, List.nil_append, List.cons_append]
    · exact ⟨⟨.letter c hc :: s :: segments, List.forall_mem_cons.2 ⟨hgap, hapart⟩, behind, hbehind⟩, rfl⟩

theorem exists_other (s : Spacing) (hc : ¬ IsAlphanumeric c) : ∃ s' : Spacing, s'.text = c :: s.text := by
  obtain ⟨segments, hapart, behind, hbehind⟩ := s
  cases segments with
  | nil => exact ⟨⟨[], by simp, c :: behind, List.forall_mem_cons.2 ⟨hc, hbehind⟩⟩, rfl⟩
  | cons s segments => exact ⟨⟨s.widen c hc :: segments, hapart, behind, hbehind⟩, rfl⟩

end Spacing

theorem exists_spacing (text : List Char) : ∃ s : Spacing, s.text = text := by
  induction text with
  | nil => exact ⟨⟨[], by simp, [], by simp⟩, rfl⟩
  | cons c text ih =>
    obtain ⟨s, rfl⟩ := ih
    by_cases hc : IsAlphanumeric c
    · exact s.exists_letter hc
    · exact s.exists_other hc

theorem exists_places (text : List Char) : ∃ runs, Places text (words text) runs := by
  obtain ⟨s, rfl⟩ := exists_spacing text
  rw [s.words_text]
  exact s.exists_places

/-- The words of a text are its longest runs of letters and digits, each where it stands, and they are the words from
which the text can be written with something else between them. -/
theorem words_eq_iff (text : List Char) (found : List (List Char)) :
    (words text = found ↔ ∃ runs, Places text found runs) ∧
      (words text = found ↔ ∃ s : Spacing, s.text = text ∧ s.words = found) := by
  obtain ⟨runs, hplaces⟩ := exists_places text
  obtain ⟨s, hs⟩ := exists_spacing text
  refine ⟨⟨?places, ?placed⟩, ⟨?spacing, ?spaced⟩⟩
  case places =>
    rintro rfl
    exact ⟨runs, hplaces⟩
  case placed =>
    rintro ⟨runs', h⟩
    exact hplaces.unique h
  case spacing =>
    rintro rfl
    exact ⟨s, hs, by rw [← s.words_text, hs]⟩
  case spaced =>
    rintro ⟨s', rfl, rfl⟩
    exact s'.words_text

example : words " na-naïve ".toList = ["na".toList, "na".toList, "ve".toList] := by decide

end Retrieval.Text
