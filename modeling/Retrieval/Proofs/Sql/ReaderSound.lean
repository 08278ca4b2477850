import Retrieval.Proofs.Sql.Reader

namespace Retrieval.Sql

def ink (ts : List Token) : List Token :=
  ts.filter (· ≠ .space)

@[simp] theorem ink_nil : ink [] = [] := rfl

@[simp] theorem ink_append (ts us : List Token) : ink (ts ++ us) = ink ts ++ ink us :=
  List.filter_append ..

@[simp] theorem ink_cons (t : Token) (ts : List Token) :
    ink (t :: ts) = if t = .space then ink ts else t :: ink ts := by
  by_cases h : t = .space <;> simp [ink, h]

@[simp] theorem Operator.token_ne_space (op : Operator) : op.token ≠ .space := by
  cases op <;> decide

theorem ink_moreTokens (value last : Expr) (values : List Expr) :
    ink (value.tokens ++ Expr.moreTokens (values ++ [last])) =
      (value :: values).flatMap (fun value => ink value.tokens ++ [.comma]) ++ ink last.tokens := by
  induction values generalizing value with
  | nil => simp [Expr.moreTokens]
  | cons next rest ih =>
    have hnext := ih next
    simp only [ink_append] at hnext
    simp [Expr.moreTokens, hnext]

theorem ink_oneOf (e last : Expr) (values : List Expr) : ink (Expr.oneOf e (values ++ [last])).tokens =
    ink e.tokens ++ [.in, .openParen] ++ values.flatMap (fun value => ink value.tokens ++ [.comma]) ++
      ink last.tokens ++ [.closeParen] := by
  cases values with
  | nil => simp [Expr.tokens, Expr.moreTokens]
  | cons value rest =>
    have hmore := congrArg (· ++ [Token.closeParen]) (ink_moreTokens value last rest)
    simpa [Expr.tokens] using hmore

def Waiting.ink : Waiting → List Token
  | .operator op left => Sql.ink left.tokens ++ [op.token]
  | .group => [.openParen]
  | .list e values =>
    Sql.ink e.tokens ++ [.in, .openParen] ++
      values.flatMap fun value => Sql.ink value.tokens ++ [.comma]

def Progress.ink : Progress → List Token
  | .operand => []
  | .after e => Sql.ink e.tokens
  | .dotted table => [.name table, .dot]
  | .text s => [.raw s]
  | .is e => Sql.ink e.tokens ++ [.is]
  | .isNot e => Sql.ink e.tokens ++ [.is, .not]
  | .in e => Sql.ink e.tokens ++ [.in]

namespace Reader

variable {r r' : Reader} {e : Expr} {stack : List Waiting} {ts us : List Token} {t : Token} {k : Nat}

def stackInk (stack : List Waiting) : List Token :=
  stack.reverse.flatMap Waiting.ink

@[simp] theorem stackInk_cons (waiting : Waiting) (stack : List Waiting) :
    stackInk (waiting :: stack) = stackInk stack ++ waiting.ink := by
  simp [stackInk]

def Waits : List Waiting → Prop
  | [] => True
  | .operator op left :: rest => left.Tight op.strength ∧ need rest ≤ op.strength ∧ Waits rest
  | .group :: rest => Waits rest
  | .list e values :: rest =>
    e.Tight 3 ∧ need rest ≤ 3 ∧ (∀ value ∈ values, value.Tight 1) ∧ Waits rest

def Fits (stack : List Waiting) : Progress → Prop
  | .operand | .dotted _ => True
  | .after e => e.Tight 3 ∧ e.Tight (need stack)
  | .text s => Balanced s.toList ∧ ∃ rest, stack = .group :: rest
  | .is e | .isNot e | .in e => e.Tight 3 ∧ need stack ≤ 3

/-- A reader holds what it has read, in parts that keep together. -/
structure Holds (r : Reader) (ts : List Token) : Prop where
  stack : Waits r.stack
  progress : Fits r.stack r.progress
  written : stackInk r.stack ++ r.progress.ink = ink ts

theorem need_le (stack : List Waiting) : need stack ≤ 4 := by
  unfold need
  split
  · rename_i op _ _
    exact Nat.succ_le_succ op.strength_bounds.2
  · decide

theorem Fits.after (h : e.Tight 4) : Fits stack (.after e) :=
  ⟨.weaken (by decide) h, .weaken (need_le stack) h⟩

theorem close_holds (hs : Waits stack) (he : e.Tight k) (hn : e.Tight (need stack)) (hk : 1 ≤ k) :
    Waits (close k e stack).2 ∧ (close k e stack).1.Tight k ∧ need (close k e stack).2 ≤ k ∧
      stackInk (close k e stack).2 ++ ink (close k e stack).1.tokens = stackInk stack ++ ink e.tokens := by
  induction stack generalizing e with
  | nil => exact ⟨hs, he, hk, rfl⟩
  | cons waiting rest ih =>
    cases waiting with
    | operator op left =>
      obtain ⟨hleft, hrest, hwaits⟩ := hs
      by_cases hop : k ≤ op.strength
      · have hbinary : Expr.Tight op.strength (.binary op left e) := .binary hleft hn
        obtain ⟨hwaits', htight, hneed, hink⟩ := ih hwaits (hbinary.weaken hop) (hbinary.weaken hrest)
        simp only [close, if_pos hop]
        refine ⟨hwaits', htight, hneed, hink.trans ?_⟩
        simp [Expr.tokens, Waiting.ink]
      · rw [close, if_neg hop]
        exact ⟨⟨hleft, hrest, hwaits⟩, he, Nat.lt_of_not_le hop, rfl⟩
    | group => exact ⟨hs, he, hk, rfl⟩
    | list e values => exact ⟨hs, he, hk, rfl⟩

theorem start_holds (hs : Waits stack) (hi : stackInk stack = ink ts) (h : start stack t = some r') :
    r'.Holds (ts ++ [t]) := by
  unfold start at h
  split at h
  · cases h
    exact ⟨hs, .after (.column none _), by simp [hi, Progress.ink, Expr.tokens]⟩
  · cases h
    exact ⟨hs, .after (.literal _), by simp [hi, Progress.ink, Expr.tokens]⟩
  · cases h
    exact ⟨hs, trivial, by simp [hi, Progress.ink, Waiting.ink]⟩
  · split at h
    · rename_i hneed
      cases h
      exact ⟨hs, ⟨.never, .weaken hneed .never⟩, by simp [hi, Progress.ink, Expr.tokens]⟩
    · cases h
  · split at h
    · split at h
      · rename_i hb
        cases h
        exact ⟨hs, ⟨hb, _, rfl⟩, by simp [← hi, Progress.ink]⟩
      · cases h
    · cases h
  · cases h

theorem finish_holds (hs : Waits stack) (he : e.Tight 1) (hi : stackInk stack ++ ink e.tokens = ink ts)
    (h : finish (e, stack) = some r') : r'.Holds (ts ++ [.closeParen]) := by
  unfold finish at h
  split at h
  · rename_i rest heq
    cases heq
    cases h
    exact ⟨hs, .after (.group he), by simp [← hi, Progress.ink, Waiting.ink, Expr.tokens]⟩
  · rename_i list values rest heq
    cases heq
    cases h
    obtain ⟨hlist, hneed, hvalues, hrest⟩ := hs
    have htight : (Expr.oneOf list (values ++ [e])).Tight 3 := by
      cases values with
      | nil => exact .oneOf hlist he (by simp)
      | cons value more =>
        obtain ⟨hvalue, hmore⟩ := List.forall_mem_cons.1 hvalues
        apply Expr.Tight.oneOf hlist hvalue
        intro v hv
        rcases List.mem_append.1 hv with hv | hv
        · exact hmore v hv
        · exact List.mem_singleton.1 hv ▸ he
    refine ⟨hrest, ⟨htight, htight.weaken hneed⟩, ?_⟩
    rw [ink_append, ← hi]
    simp [Progress.ink, ink_oneOf, Waiting.ink]
  · cases h

theorem goOn_holds (hs : Waits stack) (he : e.Tight 3) (hn : e.Tight (need stack))
    (hi : stackInk stack ++ ink e.tokens = ink ts) (h : goOn e stack t = some r') :
    r'.Holds (ts ++ [t]) := by
  obtain ⟨hs₃, he₃, hn₃, hi₃⟩ := close_holds hs he hn (by decide)
  obtain ⟨hs₁, he₁, hn₁, hi₁⟩ := close_holds hs (he.weaken (by decide)) hn (Nat.le_refl 1)
  unfold goOn at h
  split at h
  · cases h
    exact ⟨hs, trivial, by simp [← hi, Progress.ink, Expr.tokens]⟩
  · cases h
    exact ⟨hs₃, ⟨he₃, hn₃⟩, by simp [← hi, ← hi₃, Progress.ink]⟩
  · cases h
    exact ⟨hs₃, ⟨he₃, hn₃⟩, by simp [← hi, ← hi₃, Progress.ink]⟩
  · split at h
    · rename_i value list values rest hclose
      cases h
      rw [hclose] at hs₁ he₁ hi₁
      obtain ⟨hlist, hneed, hvalues, hrest⟩ := hs₁
      have hmore : ∀ v ∈ values ++ [value], v.Tight 1 := by
        intro v hv
        rcases List.mem_append.1 hv with hv | hv
        · exact hvalues v hv
        · exact List.mem_singleton.1 hv ▸ he₁
      exact ⟨⟨hlist, hneed, hmore, hrest⟩, trivial, by simp [← hi, ← hi₁, Progress.ink, Waiting.ink]⟩
    · cases h
  · exact finish_holds hs₁ he₁ (hi₁.trans hi) h
  · obtain ⟨op, hop, hr⟩ := Option.map_eq_some_iff.1 h
    obtain ⟨hs', he', hn', hi'⟩ := close_holds hs (he.weaken op.strength_bounds.2) hn op.strength_bounds.1
    cases hr
    rw [Token.operator?_eq_some hop]
    exact ⟨⟨he', hn', hs'⟩, trivial, by simp [← hi, ← hi', Progress.ink, Waiting.ink]⟩

theorem Holds.step (hr : r.Holds ts) (h : r.step t = some r') : r'.Holds (ts ++ [t]) := by
  obtain ⟨stack, progress⟩ := r
  obtain ⟨hs, hp, hi⟩ := hr
  unfold Reader.step at h
  split at h
  · cases h
    exact ⟨hs, hp, by simp [hi]⟩
  · rename_i heq _
    cases heq
    exact start_holds hs (by simpa [Progress.ink] using hi) h
  · rename_i heq _
    cases heq
    exact goOn_holds hs hp.1 hp.2 hi h
  · rename_i heq
    cases heq
    cases h
    exact ⟨hs, .after (.column _ _), by simp [← hi, Progress.ink, Expr.tokens]⟩
  · rename_i heq
    cases heq
    obtain ⟨hb, rest, rfl⟩ := hp
    cases h
    exact ⟨hs, .after (.text hb), by simp [← hi, Progress.ink, Waiting.ink, Expr.tokens]⟩
  · rename_i heq
    cases heq
    cases h
    have hnull := Expr.Tight.isNull false hp.1
    exact ⟨hs, ⟨hnull, hnull.weaken hp.2⟩, by simp [← hi, Progress.ink, Expr.tokens]⟩
  · rename_i heq
    cases heq
    cases h
    exact ⟨hs, hp, by simp [← hi, Progress.ink]⟩
  · rename_i heq
    cases heq
    cases h
    have hnull := Expr.Tight.isNull true hp.1
    exact ⟨hs, ⟨hnull, hnull.weaken hp.2⟩, by simp [← hi, Progress.ink, Expr.tokens]⟩
  · rename_i heq
    cases heq
    cases h
    exact ⟨⟨hp.1, hp.2, by simp, hs⟩, trivial, by simp [← hi, Progress.ink, Waiting.ink]⟩
  · cases h

theorem Holds.run (hr : r.Holds ts) (h : r.run us = some r') : r'.Holds (ts ++ us) := by
  induction us generalizing r ts with
  | nil =>
    cases h
    simpa using hr
  | cons t rest ih =>
    rw [run_cons, Option.bind_eq_some_iff] at h
    obtain ⟨next, hstep, hrest⟩ := h
    simpa using ih (hr.step hstep) hrest

theorem Holds.result? (hr : r.Holds ts) (h : r.result? = some e) : e.Tight 1 ∧ ink e.tokens = ink ts := by
  obtain ⟨stack, progress⟩ := r
  unfold Reader.result? at h
  split at h
  · rename_i operand heq
    cases heq
    obtain ⟨_, htight, _, hink⟩ :=
      close_holds hr.stack (hr.progress.1.weaken (by decide)) hr.progress.2 (Nat.le_refl 1)
    split at h
    · rename_i hclose
      cases h
      rw [hclose] at htight hink
      exact ⟨htight, hink.trans hr.written⟩
    · cases h
  · cases h

end Reader

end Retrieval.Sql
