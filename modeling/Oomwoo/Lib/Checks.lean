import Mathlib.Data.List.Basic

namespace Checks

/-!
# Checks one after the other

A validator is a chain of checks of which the first that fails decides the error.  It accepts
exactly if every check passes: `ite_error_eq_ok_iff` takes one check off the chain, and
`fresh_cons_iff` one name off the names that later ones have to differ from.
-/

variable {ε α β : Type}

/-- A check that passes leaves the rest of the chain. -/
theorem ite_error_eq_ok_iff {c : Prop} [Decidable c] {error : ε} {rest : Except ε α}
    {accepted : α} :
    (if c then .error error else rest) = .ok accepted ↔ ¬ c ∧ rest = .ok accepted := by
  by_cases hc : c
  · simp [hc]
  · simp [hc]

/-- Names that are to be new: other than one more name and the ones before. -/
theorem fresh_cons_iff (name : α → β) (seen : β) (names : List β) (items : List α) :
    (∀ item ∈ items, name item ∉ seen :: names) ↔
      seen ∉ items.map name ∧ ∀ item ∈ items, name item ∉ names := by
  simp only [List.mem_cons, not_or, List.mem_map, not_exists, not_and]
  constructor
  · intro h
    exact ⟨fun item hitem => (h item hitem).1, fun item hitem => (h item hitem).2⟩
  · rintro ⟨hseen, hnames⟩ item hitem
    exact ⟨hseen item hitem, hnames item hitem⟩

end Checks
