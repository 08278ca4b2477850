import Retrieval.Proofs.Query.Search

namespace Retrieval.Search

/-- A term on all fields is redirected to the field that its prefix stands for, with what is behind the prefix. A number
has no prefix, and is not redirected. -/
inductive Redirected (c : Collection) : String × List Char → String × List Char → Prop
  | step {term rest : List Char} {target : String} (hn : ¬ IsDigits term) (h : Redirects c term target rest) :
      Redirected c (everywhere, term) (target, rest)

/-- A number of redirections one after the other. -/
inductive Follows (c : Collection) : Nat → String × List Char → String × List Char → Prop
  | refl (s : String × List Char) : Follows c 0 s s
  | step {n : Nat} {s s' s'' : String × List Char} (h : Redirected c s s') (hrest : Follows c n s' s'') :
      Follows c (n + 1) s s''

variable {c : Collection} {key : String} {term : List Char} {s s' s'' : String × List Char} {n n' : Nat}

theorem redirected_iff : Redirected c (key, term) s ↔ key = everywhere ∧ redirect? c term = some s := by
  constructor
  · rintro ⟨_, h⟩
    exact ⟨rfl, redirect?_eq_some.2 h⟩
  · rintro ⟨rfl, h⟩
    have hredirects := redirect?_eq_some.1 h
    refine .step ?_ hredirects
    -- the colon behind the prefix is no digit
    obtain ⟨before, rfl, _⟩ := hredirects
    rintro ⟨_, hdigits⟩
    exact absurd (hdigits ':' (by simp)) (by decide)

theorem Redirected.deterministic (h : Redirected c s s') (h' : Redirected c s s'') : s' = s'' := by
  obtain ⟨key, term⟩ := s
  have hsome := (redirected_iff.1 h).2
  rw [(redirected_iff.1 h').2] at hsome
  exact (Option.some.inj hsome).symm

/-- A prefix ends at the first colon, so a redirection takes just one from the term. -/
theorem Redirected.count (h : Redirected c s s') : s.2.count ':' = s'.2.count ':' + 1 := by
  obtain ⟨_, before, rfl, hbefore, _⟩ := h
  rw [List.count_append, List.count_eq_zero.2 hbefore, List.count_cons_self, Nat.zero_add]

theorem Follows.count (h : Follows c n s s') : s.2.count ':' = s'.2.count ':' + n := by
  induction h with
  | refl s => rfl
  | step h _ ih => rw [h.count, ih, Nat.add_assoc]

theorem Follows.extends (h : Follows c n s s') (hend : ∀ t, ¬ Redirected c s' t) (h' : Follows c n' s s'') :
    ∃ k, n = n' + k ∧ Follows c k s'' s' := by
  induction h' generalizing n with
  | refl s => exact ⟨n, (Nat.zero_add n).symm, h⟩
  | step hs' _ ih =>
    cases h with
    | refl => exact absurd hs' (hend _)
    | step hs hrest =>
      cases hs.deterministic hs'
      obtain ⟨k, rfl, hk⟩ := ih hrest
      exact ⟨k, Nat.add_right_comm _ k 1, hk⟩

theorem Follows.le (h : Follows c n s s') (hend : ∀ t, ¬ Redirected c s' t) (h' : Follows c n' s s'') :
    n' ≤ n := by
  obtain ⟨k, rfl, _⟩ := h.extends hend h'
  exact Nat.le_add_right n' k

theorem Follows.unique (h : Follows c n s s') (hend : ∀ t, ¬ Redirected c s' t) (h' : Follows c n' s s'')
    (hend' : ∀ t, ¬ Redirected c s'' t) : n' = n ∧ s'' = s' := by
  obtain ⟨k, rfl, hk⟩ := h.extends hend h'
  cases hk with
  | refl => exact ⟨rfl, rfl⟩
  | step hs => exact absurd hs (hend' _)

theorem follows_route (c : Collection) (key : String) (term : List Char) :
    ∃ n, Follows c n (key, term) (route c key term) := by
  fun_induction route c key term with
  | case1 term target rest h ih =>
    obtain ⟨n, hrest⟩ := ih
    exact ⟨n + 1, .step (redirected_iff.2 ⟨rfl, h⟩) hrest⟩
  | case2 term h => exact ⟨0, .refl _⟩
  | case3 key term h => exact ⟨0, .refl _⟩

theorem not_redirected_route (c : Collection) (key : String) (term : List Char) :
    ∀ s, ¬ Redirected c (route c key term) s := by
  fun_induction route c key term with
  | case1 term target rest h ih => exact ih
  | case2 term h =>
    intro s hs
    rw [(redirected_iff.1 hs).2] at h
    cases h
  | case3 key term h => exact fun s hs => h (redirected_iff.1 hs).1

theorem route_of_not_redirected (h : ∀ s, ¬ Redirected c (key, term) s) : route c key term = (key, term) := by
  by_cases hk : key = everywhere
  · subst hk
    apply route_of_none
    rw [Option.eq_none_iff_forall_ne_some]
    exact fun s hs => h s (redirected_iff.2 ⟨rfl, hs⟩)
  · exact route_of_ne hk

/-- A search beside the one that its redirections come to. -/
structure Ends (c : Collection) (p : Selection) (key term : String) (n : Nat) (key' rest : String) : Prop where
  follows : Follows c n (key, term.toList) (key', rest.toList)
  bound : n ≤ term.toList.count ':'
  ends : ∀ s, ¬ Redirected c (key', rest.toList) s
  longest : ∀ n' s, Follows c n' (key, term.toList) s → n' ≤ n
  unique : ∀ n' s, Follows c n' (key, term.toList) s → (∀ s', ¬ Redirected c s s') →
    n' = n ∧ s = (key', rest.toList)
  same : predicates c p key term = predicates c p key' rest
  direct : predicates c p key term = direct p key' rest.toList

theorem ends_predicates (c : Collection) (p : Selection) (key term : String) :
    ∃ n key' rest, Ends c p key term n key' rest := by
  obtain ⟨n, hfollows⟩ := follows_route c key term.toList
  have hend := not_redirected_route c key term.toList
  obtain ⟨key', rest, hroute⟩ : ∃ key' rest, route c key term.toList = (key', String.toList rest) :=
    ⟨_, String.ofList (route c key term.toList).2, by rw [String.toList_ofList]⟩
  rw [hroute] at hfollows hend
  have hdirect : predicates c p key term = direct p key' rest.toList := by
    rw [predicates, hroute]
  refine ⟨n, key', rest, ?_⟩
  constructor
  case follows => exact hfollows
  case bound =>
    have hcount : term.toList.count ':' = rest.toList.count ':' + n := hfollows.count
    omega
  case ends => exact hend
  case longest => exact fun n' s h => hfollows.le hend h
  case unique => exact fun n' s h hs => hfollows.unique hend h hs
  case same => rw [hdirect, predicates, route_of_not_redirected hend]
  case direct => exact hdirect

end Retrieval.Search
