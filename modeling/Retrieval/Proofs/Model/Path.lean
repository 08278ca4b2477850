import Retrieval.Model.Path
import Retrieval.Proofs.Text.Words

namespace Retrieval

theorem Path.mem_of_mem_terminal {p : Path} {c : Char} (h : c ∈ p.terminal.toList) :
    c ∈ p.text.toList := by
  rw [terminal, segments] at h
  cases hlast : ((Text.splitWhere (· == '.') p.text.toList).map String.ofList).getLast? with
  | none =>
    rw [hlast] at h
    cases h
  | some last =>
    obtain ⟨piece, hp, rfl⟩ := List.mem_map.1 (List.mem_of_getLast? hlast)
    rw [hlast, Option.getD_some, String.toList_ofList] at h
    exact (Text.mem_splitWhere.1 hp).mem_of_mem h

/-- Names as they stand between the dots of a path. -/
def DotFree (names : List String) : Prop := ∀ name ∈ names, '.' ∉ name.toList

theorem Path.dotFree_segments (p : Path) : DotFree p.segments := by
  intro name hn hdot
  obtain ⟨piece, hp, rfl⟩ := List.mem_map.1 hn
  rw [String.toList_ofList] at hdot
  have hfree := (Text.mem_splitWhere.1 hp).1 '.' hdot
  simp at hfree

theorem Path.dotFree_hops (p : Path) : DotFree p.hops :=
  fun name hn => p.dotFree_segments name (List.dropLast_subset _ hn)

theorem Path.notMem_terminal (p : Path) : '.' ∉ p.terminal.toList := by
  rw [terminal]
  cases hlast : p.segments.getLast? with
  | none => exact List.not_mem_nil
  | some last => exact p.dotFree_segments last (List.mem_of_getLast? hlast)

theorem Path.segments_eq_singleton {p : Path} (h : '.' ∉ p.text.toList) : p.segments = [p.text] := by
  have hword : ∀ c ∈ p.text.toList, (c == '.') = false :=
    fun c hc => beq_eq_false_iff_ne.2 fun hdot => h (hdot ▸ hc)
  rw [segments, Text.splitWhere_eq_splitOnP, List.splitOnP_eq_singleton hword, List.map_singleton,
    String.ofList_toList]

theorem Path.hops_eq_nil {p : Path} (h : '.' ∉ p.text.toList) : p.hops = [] := by
  rw [hops, segments_eq_singleton h]
  rfl

theorem Path.terminal_eq_text {p : Path} (h : '.' ∉ p.text.toList) : p.terminal = p.text := by
  rw [terminal, segments_eq_singleton h]
  rfl

theorem intercalate_dot_inj {xs ys : List String} (hx : DotFree xs) (hy : DotFree ys)
    (hxn : xs ≠ []) (hyn : ys ≠ []) (h : ".".intercalate xs = ".".intercalate ys) : xs = ys := by
  have hsplit : ∀ zs : List String, DotFree zs → zs ≠ [] →
      (".".intercalate zs).toList.splitOn '.' = zs.map String.toList := by
    intro zs hz hzn
    rw [String.toList_intercalate]
    refine List.splitOn_intercalate '.' ?_ (by simpa using hzn)
    intro name hn
    obtain ⟨s, hs, rfl⟩ := List.mem_map.1 hn
    exact hz s hs
  have hm : xs.map String.toList = ys.map String.toList := by
    rw [← hsplit xs hx hxn, ← hsplit ys hy hyn, h]
  exact List.map_injective_iff.2 (fun _ _ he => String.toList_inj.1 he) hm

end Retrieval
