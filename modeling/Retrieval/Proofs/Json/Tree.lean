import Retrieval.Json.Tree
import Retrieval.Proofs.Dict
import Retrieval.Proofs.Json.Token

namespace Retrieval.Json

namespace Tree

mutual

def tokens : Tree → List Token
  | .null => [.null]
  | .bool b => [.bool b]
  | .number n => [.number n]
  | .string content => [.string content]
  | .array items => .openArray :: (itemTokens items ++ [.closeArray])
  | .object members => .openObject :: (memberTokens members ++ [.closeObject])

def itemTokens : List Tree → List Token
  | [] => []
  | [item] => item.tokens
  | item :: rest => item.tokens ++ .comma :: itemTokens rest

def memberTokens : List (Option String × Tree) → List Token
  | [] => []
  | [(key, t)] => .string key :: .colon :: t.tokens
  | (key, t) :: rest => .string key :: .colon :: (t.tokens ++ .comma :: memberTokens rest)

end

theorem feed_firstItem (t : Tree) (rest : List Token) (stack : List Frame) :
    (t.tokens ++ rest).foldlM feed ⟨stack, .firstItem⟩ = (t.tokens ++ rest).foldlM feed ⟨stack, .value⟩ := by
  cases t <;> simp [tokens, feed, startValue]

theorem feed_firstKey (m : Option String × Tree) (ms : List (Option String × Tree)) (stack : List Frame) :
    (memberTokens (m :: ms)).foldlM feed ⟨stack, .firstKey⟩ =
      (memberTokens (m :: ms)).foldlM feed ⟨stack, .key⟩ := by
  obtain ⟨key, t⟩ := m
  cases ms <;> simp [memberTokens, feed]

theorem exists_itemTokens (t : Tree) (ts : List Tree) : ∃ rest, itemTokens (t :: ts) = t.tokens ++ rest := by
  cases ts with
  | nil => exact ⟨[], by simp [itemTokens]⟩
  | cons t' ts => exact ⟨.comma :: itemTokens (t' :: ts), by simp [itemTokens]⟩

theorem itemTokens_cons_cons (t t' : Tree) (ts : List Tree) :
    itemTokens (t :: t' :: ts) = t.tokens ++ .comma :: itemTokens (t' :: ts) := by
  simp [itemTokens]

theorem memberTokens_cons_cons (key : Option String) (t : Tree) (m : Option String × Tree)
    (ms : List (Option String × Tree)) :
    memberTokens ((key, t) :: m :: ms) =
      .string key :: .colon :: (t.tokens ++ .comma :: memberTokens (m :: ms)) := by
  simp [memberTokens]

mutual

/-- The builder goes through the tokens of a tree and hands the tree to the container around it. -/
theorem foldlM_tokens (t : Tree) (stack : List Frame) :
    t.tokens.foldlM feed ⟨stack, .value⟩ = some (place t stack) := by
  cases t with
  | null | bool | number | string => simp [tokens, feed, startValue]
  | array items =>
    have hopen : feed ⟨stack, .value⟩ .openArray = some ⟨.items [] :: stack, .firstItem⟩ := rfl
    rw [tokens, List.foldlM_cons, hopen, Option.bind_eq_bind, Option.bind_some]
    cases items with
    | nil => rfl
    | cons t ts =>
      obtain ⟨rest, hrest⟩ := exists_itemTokens t ts
      have hitems := foldlM_itemTokens (t :: ts) (List.cons_ne_nil _ _) [] stack
      rw [hrest, ← feed_firstItem, ← hrest] at hitems
      rw [List.foldlM_append, hitems]
      simp [feed, close]
  | object members =>
    have hopen : feed ⟨stack, .value⟩ .openObject = some ⟨.members [] none :: stack, .firstKey⟩ := rfl
    rw [tokens, List.foldlM_cons, hopen, Option.bind_eq_bind, Option.bind_some]
    cases members with
    | nil => rfl
    | cons m ms =>
      obtain ⟨last, hmembers⟩ := foldlM_memberTokens (m :: ms) (List.cons_ne_nil _ _) [] none stack
      rw [← feed_firstKey] at hmembers
      rw [List.foldlM_append, hmembers]
      simp [feed, close]

theorem foldlM_itemTokens (ts : List Tree) (hts : ts ≠ []) (done : List Tree) (stack : List Frame) :
    (itemTokens ts).foldlM feed ⟨.items done :: stack, .value⟩ =
      some ⟨.items (ts.reverse ++ done) :: stack, .next⟩ := by
  match ts with
  | [] => exact absurd rfl hts
  | [t] => simpa [itemTokens, place] using foldlM_tokens t (.items done :: stack)
  | t :: t' :: ts =>
    rw [itemTokens_cons_cons, List.foldlM_append, foldlM_tokens t (.items done :: stack)]
    simpa [place, feed] using foldlM_itemTokens (t' :: ts) (List.cons_ne_nil _ _) (t :: done) stack

theorem foldlM_memberTokens (ms : List (Option String × Tree)) (hms : ms ≠ [])
    (done : List (Option String × Tree)) (key : Option String) (stack : List Frame) :
    ∃ last, (memberTokens ms).foldlM feed ⟨.members done key :: stack, .key⟩ =
      some ⟨.members (ms.reverse ++ done) last :: stack, .next⟩ := by
  match ms with
  | [] => exact absurd rfl hms
  | [(k, t)] =>
    exact ⟨k, by simpa [memberTokens, place, feed, startKey] using foldlM_tokens t (.members done k :: stack)⟩
  | (k, t) :: m :: ms =>
    obtain ⟨last, hrest⟩ := foldlM_memberTokens (m :: ms) (List.cons_ne_nil _ _) ((k, t) :: done) k stack
    refine ⟨last, ?_⟩
    have hkey : feed ⟨.members done key :: stack, .key⟩ (.string k) =
        some ⟨.members done k :: stack, .colon⟩ := rfl
    have hcolon : feed ⟨.members done k :: stack, .colon⟩ .colon =
        some ⟨.members done k :: stack, .value⟩ := rfl
    have hcomma : feed ⟨.members ((k, t) :: done) k :: stack, .next⟩ .comma =
        some ⟨.members ((k, t) :: done) k :: stack, .key⟩ := rfl
    have hfirst := foldlM_tokens t (.members done k :: stack)
    simp only [memberTokens_cons_cons, List.foldlM_cons, List.foldlM_append, hkey, hcolon, hfirst, place, hcomma,
      hrest, Option.bind_eq_bind, Option.bind_some]
    simp

end

theorem ofTokens?_tokens (t : Tree) : ofTokens? t.tokens = some t := by
  have h : t.tokens.foldlM feed {} = some (place t []) := foldlM_tokens t []
  rw [ofTokens?, h]
  rfl

end Tree

end Retrieval.Json
