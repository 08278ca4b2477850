import Mathlib.Data.List.TakeWhile
import Retrieval.Json.Token
import Retrieval.Proofs.Number.Layout

namespace Retrieval

theorem Decimal.digitChars_head {n : Nat} (hn : 0 < n) {c : Char} {rest : List Char}
    (h : digitChars n = c :: rest) : c ≠ '0' := by
  induction n using Nat.strongRecOn generalizing c rest with
  | ind n ih =>
    by_cases hlt : n < 10
    · rw [digitChars, Nat.toDigits_of_lt_base hlt] at h
      obtain ⟨rfl, _⟩ := List.cons.inj h
      have hall : ∀ d < 10, 0 < d → d.digitChar ≠ '0' := by decide
      exact hall n hlt hn
    · rw [digitChars, Nat.toDigits_of_base_le (by decide) (Nat.not_lt.1 hlt)] at h
      cases hfront : Nat.toDigits 10 (n / 10) with
      | nil => exact absurd hfront Nat.toDigits_ne_nil
      | cons d ds =>
        rw [hfront] at h
        obtain ⟨rfl, _⟩ := List.cons.inj h
        exact ih (n / 10) (by omega) (by omega) hfront

namespace Json

namespace Numeral

theorem isWhole_digitChars (n : Nat) : isWhole (Decimal.digitChars n) = true := by
  obtain ⟨c, rest, hcs, hc, hrest⟩ := (isDigits_digitChars n).exists_cons
  rw [hcs]
  cases rest with
  | nil => exact hc
  | cons d rest =>
    have hn : 0 < n := by
      rw [Nat.pos_iff_ne_zero]
      rintro rfl
      cases hcs
    have hzero : c ≠ '0' := Decimal.digitChars_head hn hcs
    have hall : (d :: rest).all Char.isDigit = true := List.all_eq_true.2 hrest
    simp only [isWhole, hc, hall, bne_iff_ne.2 hzero, Bool.and_self]

theorem ofChars?_digits {digits : List Char} (hw : isWhole digits = true) (hd : ∀ c ∈ digits, c.isDigit = true) :
    ofChars? digits = some ⟨false, digits, none, none⟩ ∧
      ofChars? ('-' :: digits) = some ⟨true, digits, none, none⟩ := by
  have htake : digits.takeWhile Char.isDigit = digits := List.takeWhile_eq_self_iff.2 hd
  have hdrop : digits.dropWhile Char.isDigit = [] := List.dropWhile_eq_nil_iff.2 hd
  constructor
  · cases digits with
    | nil => cases hw
    | cons c rest =>
      have hminus : c ≠ '-' := by
        rintro rfl
        cases hd '-' List.mem_cons_self
      simp only [ofChars?, if_neg hminus, htake, hdrop, hw, if_true, fractionOf?]
  · simp only [ofChars?, if_true, htake, hdrop, hw, fractionOf?]

theorem ofChars?_intChars (n : Int) :
    ofChars? (Layout.intChars n) = some ⟨n < 0, Decimal.digitChars n.natAbs, none, none⟩ := by
  have hdigits := fun k => ofChars?_digits (isWhole_digitChars k) (isDigits_digitChars k).2
  cases n with
  | ofNat k => exact (hdigits k).1
  | negSucc k =>
    rw [decide_eq_true (Int.negSucc_lt_zero k)]
    exact (hdigits (k + 1)).2

end Numeral

namespace Number

def numeral (n : Number) : Numeral :=
  (Numeral.ofChars? n.chars).getD ⟨false, [], none, none⟩

structure ReadsBack (n : Number) : Prop where
  ofChars? : Numeral.ofChars? n.chars = some n.numeral
  number? : n.numeral.number? = some n

theorem readsBack_int {n : Int} (h : Int64.minValue.toInt ≤ n ∧ n < UInt64.size) : ReadsBack (.int n) := by
  have hchars : Numeral.ofChars? (Number.int n).chars = some ⟨n < 0, Decimal.digitChars n.natAbs, none, none⟩ :=
    Numeral.ofChars?_intChars n
  have hnumeral : (Number.int n).numeral = ⟨n < 0, Decimal.digitChars n.natAbs, none, none⟩ := by
    rw [numeral, hchars, Option.getD_some]
  refine ⟨by rw [hchars, hnumeral], ?_⟩
  have hvalue : (if decide (n < 0) = true then -(n.natAbs : Int) else n.natAbs) = n := by
    split
    · rename_i hn
      have := of_decide_eq_true hn
      omega
    · rename_i hn
      have := of_decide_eq_false (Bool.eq_false_iff.2 hn)
      omega
  have hzero : (decide (n < 0) && decide (n = 0)) = false := by
    rw [Bool.and_eq_false_iff, decide_eq_false_iff_not, decide_eq_false_iff_not]
    omega
  rw [hnumeral, Numeral.number?]
  simp only [Decimal.digitsValue_digitChars, hvalue, hzero, decide_eq_true h, Option.isNone_none, Bool.and_self,
    Bool.not_false, if_true]

def IsDenoted (n : Number) : Prop :=
  ∃ k : Numeral, k.number? = some n

/-- A numeral in range is an integer only if it fits 64 bits. -/
theorem IsDenoted.range {n : Int} (h : IsDenoted (.int n)) : Int64.minValue.toInt ≤ n ∧ n < UInt64.size := by
  obtain ⟨k, h⟩ := h
  unfold Numeral.number? at h
  extract_lets value at h
  split at h
  · rename_i hrange
    simp only [Option.some.injEq, Number.int.injEq] at h
    simp only [Bool.and_eq_true, decide_eq_true_eq] at hrange
    exact h ▸ hrange.1.2
  · obtain ⟨x, _, hx⟩ := Option.map_eq_some_iff.1 h
    cases hx

end Number

namespace Token

/-- The lexer goes through a text, from between two tokens, and stands at the end of its tokens. A
numeral is read to its end only once something else follows. -/
def Reads (cs : List Char) (tokens : List Token) : Prop :=
  ∀ before, ∃ s, cs.foldlM feed ⟨before, .between⟩ = some s ∧ finish s = some (tokens.reverse ++ before)

theorem Reads.ofChars? {cs : List Char} {tokens : List Token} (h : Reads cs tokens) :
    ofChars? cs = some tokens := by
  obtain ⟨s, hs, hfinish⟩ := h []
  have hstart : cs.foldlM feed {} = some s := hs
  rw [Token.ofChars?, hstart, Option.bind_some, hfinish]
  simp

theorem reads_nil : Reads [] [] :=
  fun before => ⟨⟨before, .between⟩, rfl, rfl⟩

theorem feed_mark {s : State} {tokens : List Token} {c : Char} {t : Token} (hs : finish s = some tokens)
    (hc : punctuation? c = some t) : feed s c = some ⟨t :: tokens, .between⟩ := by
  have hmark : c.isLower = false ∧ isNumeralChar c = false ∧ start tokens c = some ⟨t :: tokens, .between⟩ := by
    unfold punctuation? at hc
    split_ifs at hc with h₁ h₂ h₃ h₄ h₅ h₆
    all_goals
      cases hc
      subst c
      exact ⟨rfl, rfl, rfl⟩
  obtain ⟨hlower, hnumeral, hstart⟩ := hmark
  obtain ⟨before, mode⟩ := s
  cases mode with
  | between =>
    cases hs
    exact hstart
  | word letters =>
    simp only [feed, hlower, Bool.false_eq_true, if_false, hs, Option.bind_some]
    exact hstart
  | numeral chars =>
    simp only [feed, hnumeral, Bool.false_eq_true, if_false, hs, Option.bind_some]
    exact hstart
  | string | escape | unicode => cases hs

theorem Reads.mark {cs ds : List Char} {ts us : List Token} {c : Char} {t : Token} (h : Reads cs ts)
    (hc : punctuation? c = some t) (h' : Reads ds us) : Reads (cs ++ c :: ds) (ts ++ t :: us) := by
  intro before
  obtain ⟨s, hs, hfinish⟩ := h before
  obtain ⟨s', hs', hfinish'⟩ := h' (t :: (ts.reverse ++ before))
  refine ⟨s', ?_, ?_⟩
  · rw [List.foldlM_append, hs, Option.bind_eq_bind, Option.bind_some, List.foldlM_cons, feed_mark hfinish hc]
    exact hs'
  · rw [hfinish']
    simp

theorem Reads.comma {cs ds : List Char} {ts us : List Token} (h : Reads cs ts) (h' : Reads ds us) :
    Reads (cs ++ ',' :: ds) (ts ++ .comma :: us) :=
  h.mark rfl h'

theorem Reads.colon {cs ds : List Char} {ts us : List Token} (h : Reads cs ts) (h' : Reads ds us) :
    Reads (cs ++ ':' :: ds) (ts ++ .colon :: us) :=
  h.mark rfl h'

theorem reads_null : Reads ['n', 'u', 'l', 'l'] [.null] :=
  fun before => ⟨⟨before, .word ['l', 'l', 'u', 'n']⟩, rfl, rfl⟩

theorem reads_true : Reads ['t', 'r', 'u', 'e'] [.bool true] :=
  fun before => ⟨⟨before, .word ['e', 'u', 'r', 't']⟩, rfl, rfl⟩

theorem reads_false : Reads ['f', 'a', 'l', 's', 'e'] [.bool false] :=
  fun before => ⟨⟨before, .word ['e', 's', 'l', 'a', 'f']⟩, rfl, rfl⟩

theorem isNumeralChar_of_isNumeral {c : Char} (h : IsNumeral c) : isNumeralChar c = true := by
  rcases h with h | h
  · simp [isNumeralChar, h]
  · simp only [List.mem_cons, List.not_mem_nil, or_false] at h
    rcases h with rfl | rfl | rfl | rfl <;> rfl

theorem isNumeralChar_of_mem_chars {n : Number} {c : Char} (h : c ∈ n.chars) : isNumeralChar c = true := by
  cases n with
  | int n => exact isNumeralChar_of_isNumeral (Layout.isNumeral_of_mem_intChars h)
  | float x => exact isNumeralChar_of_isNumeral (Layout.isNumeral_of_mem_write h)

theorem start_of_ofChars? {c : Char} {rest : List Char} {k : Numeral} (h : Numeral.ofChars? (c :: rest) = some k)
    (before : List Token) : start before c = some ⟨before, .numeral [c]⟩ := by
  by_cases hminus : c = '-'
  · subst hminus
    rfl
  · by_cases hdigit : c.isDigit = true
    · have hother : isSpace c = false ∧ c ≠ '"' := by
        constructor
        · rw [Bool.eq_false_iff]
          intro hspace
          simp only [isSpace, Bool.or_eq_true, beq_iff_eq] at hspace
          rcases hspace with ((rfl | rfl) | rfl) | rfl <;> cases hdigit
        · rintro rfl
          cases hdigit
      simp [start, hother, hdigit]
    · simp [Numeral.ofChars?, hminus, hdigit, Numeral.isWhole] at h

theorem foldlM_feed_numeral {cs : List Char} (hc : ∀ c ∈ cs, isNumeralChar c = true) (before : List Token)
    (done : List Char) :
    cs.foldlM feed ⟨before, .numeral done⟩ = some ⟨before, .numeral (cs.reverse ++ done)⟩ := by
  induction cs generalizing done with
  | nil => rfl
  | cons c rest ih =>
    rw [List.forall_mem_cons] at hc
    simp only [List.foldlM_cons, feed, hc.1, if_true, Option.bind_eq_bind, Option.bind_some]
    rw [ih hc.2]
    simp

/-- A numeral is read to its end if all of it may stand in one, and it starts as one. -/
theorem reads_numeral {cs : List Char} {k : Numeral} (h : Numeral.ofChars? cs = some k)
    (hc : ∀ c ∈ cs, isNumeralChar c = true) : Reads cs [.number k] := by
  intro before
  cases cs with
  | nil => cases h
  | cons c rest =>
    have hstart : feed ⟨before, .between⟩ c = some ⟨before, .numeral [c]⟩ := start_of_ofChars? h before
    rw [List.forall_mem_cons] at hc
    refine ⟨⟨before, .numeral (rest.reverse ++ [c])⟩, ?_, ?_⟩
    · rw [List.foldlM_cons, hstart]
      exact foldlM_feed_numeral hc.2 before [c]
    · simp [finish, h]

theorem hexValue?_hexDigit {n : Nat} (h : n < 16) : Text.hexValue? (hexDigit n) = some n := by
  have hall : ∀ n < 16, Text.hexValue? (hexDigit n) = some n := by decide
  exact hall n h

theorem foldlM_feed_control (before : List Token) (units : List CodeUnit) {c : Char} (hc : c.toNat < 0x20) :
    ['\\', 'u', '0', '0', hexDigit (c.toNat / 16), hexDigit (c.toNat % 16)].foldlM feed
      ⟨before, .string units⟩ = some ⟨before, .string (.char c :: units)⟩ := by
  have hhigh := hexValue?_hexDigit (n := c.toNat / 16) (by omega)
  have hlow := hexValue?_hexDigit (n := c.toNat % 16) (by omega)
  have hcode : 16 * (c.toNat / 16) + c.toNat % 16 = c.toNat := Nat.div_add_mod _ _
  have hunit : unitOfCode c.toNat = .char c := by
    rw [unitOfCode, if_neg (by omega), Char.ofNat_toNat]
  have hzeros : ['\\', 'u', '0', '0'].foldlM feed ⟨before, .string units⟩ =
      some ⟨before, .unicode units 2 0⟩ := rfl
  have hsplit : ['\\', 'u', '0', '0', hexDigit (c.toNat / 16), hexDigit (c.toNat % 16)] =
      ['\\', 'u', '0', '0'] ++ [hexDigit (c.toNat / 16), hexDigit (c.toNat % 16)] := rfl
  rw [hsplit, List.foldlM_append, hzeros]
  simp [feed, hhigh, hlow, hcode, hunit]

theorem foldlM_feed_escape (before : List Token) (units : List CodeUnit) (c : Char) :
    (escape c).foldlM feed ⟨before, .string units⟩ = some ⟨before, .string (.char c :: units)⟩ := by
  unfold escape
  split_ifs with hquote hbackslash hb hf hn hr ht hcontrol
  on_goal 8 => exact foldlM_feed_control before units hcontrol
  on_goal 8 => simp [feed, hquote, hbackslash, hcontrol]
  all_goals
    subst c
    rfl

theorem decodeUnits_map_char (cs : List Char) : decodeUnits (cs.map .char) = some cs := by
  induction cs with
  | nil => rfl
  | cons c rest ih => rw [List.map_cons, decodeUnits, ih, Option.map_some]

theorem foldlM_feed_escapes (before : List Token) (units : List CodeUnit) (cs : List Char) :
    (cs.flatMap escape).foldlM feed ⟨before, .string units⟩ =
      some ⟨before, .string ((cs.map .char).reverse ++ units)⟩ := by
  induction cs generalizing units with
  | nil => rfl
  | cons c rest ih =>
    rw [List.flatMap_cons, List.foldlM_append, foldlM_feed_escape, Option.bind_eq_bind, Option.bind_some, ih]
    simp

theorem reads_stringChars (s : String) : Reads (stringChars s) [.string (some s)] := by
  intro before
  refine ⟨⟨.string (some s) :: before, .between⟩, ?_, rfl⟩
  have hopen : feed ⟨before, .between⟩ '"' = some ⟨before, .string []⟩ := rfl
  rw [stringChars, List.cons_append, List.foldlM_cons, hopen, Option.bind_eq_bind, Option.bind_some,
    List.foldlM_append, foldlM_feed_escapes, Option.bind_eq_bind, Option.bind_some, List.append_nil]
  have hunits : ofUnits (s.toList.map .char).reverse = .string (some s) := by
    rw [ofUnits, List.reverse_reverse, decodeUnits_map_char, Option.map_some, String.ofList_toList]
  simp [feed, hunits]

end Token

end Json

end Retrieval
