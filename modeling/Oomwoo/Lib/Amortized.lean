import Mathlib.Algebra.Ring.Nat

namespace Amortized

/-!
# The potential method

A fold whose steps cost something.  `foldCost` adds up the costs, each read at the state in which
its step is taken.  Where a potential pays for every step, out of what the step takes from it and
a grant for the step (`Paid`), the grants and the potential at the start pay for the whole fold:

* `Paid.foldCost_le`: the cost of a fold and the potential behind it are at most the potential in
  front of it and the grants.
-/

variable {σ α : Type}

/-- What a fold costs. -/
def foldCost (step : σ → α → σ) (cost : σ → α → ℕ) : σ → List α → ℕ
  | _, [] => 0
  | s, a :: as => cost s a + foldCost step cost (step s a) as

/-- Every step keeps the invariant, and the potential and the grant pay for it. -/
structure Paid (step : σ → α → σ) (cost : σ → α → ℕ) (inv : σ → Prop) (potential : σ → ℕ)
    (grant : α → ℕ) : Prop where
  keeps : ∀ {s : σ} (a : α), inv s → inv (step s a)
  pays : ∀ {s : σ} (a : α), inv s → cost s a + potential (step s a) ≤ potential s + grant a

namespace Paid

variable {step : σ → α → σ} {cost : σ → α → ℕ} {inv : σ → Prop} {potential : σ → ℕ}
  {grant : α → ℕ} (h : Paid step cost inv potential grant)
include h

/-- The invariant holds behind a fold. -/
theorem keeps_foldl {s : σ} (hs : inv s) (as : List α) : inv (as.foldl step s) := by
  induction as generalizing s with
  | nil => exact hs
  | cons a as ih => exact ih (h.keeps a hs)

/-- **The potential and the grants pay for a fold.** -/
theorem foldCost_le {s : σ} (hs : inv s) (as : List α) :
    foldCost step cost s as + potential (as.foldl step s) ≤
      potential s + (as.map grant).sum := by
  induction as generalizing s with
  | nil =>
    rw [foldCost, List.foldl_nil, List.map_nil, List.sum_nil]
    omega
  | cons a as ih =>
    have hstep := h.pays a hs
    have hrest := ih (h.keeps a hs)
    rw [foldCost, List.foldl_cons, List.map_cons, List.sum_cons]
    omega

end Paid

end Amortized
