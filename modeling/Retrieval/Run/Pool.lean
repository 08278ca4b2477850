namespace Retrieval

structure Pool where
  size : Nat
  idle : Nat
  idle_le : idle ≤ size
  deriving Repr

namespace Pool

/-- A pool with all its connections free. There is always at least one. -/
def ofSize (requested : Nat) : Pool :=
  ⟨max requested 1, max requested 1, Nat.le_refl _⟩

def take? (p : Pool) : Option Pool :=
  if h : 0 < p.idle then some ⟨p.size, p.idle - 1, by have := p.idle_le; omega⟩ else none

theorem take?_idle {p q : Pool} (h : p.take? = some q) : q.idle < p.idle := by
  unfold take? at h
  split at h
  · cases h
    simp only
    omega
  · cases h

def capacity (p : Pool) : Nat :=
  match _h : p.take? with
  | none => 0
  | some q => capacity q + 1
termination_by p.idle
decreasing_by exact take?_idle _h

end Pool

end Retrieval
