import Mathlib.Data.List.TakeDrop

namespace Scanning

/-!
# Incremental scanners

A `Scanner` looks at the unread symbols and either waits for more or consumes a nonempty run of
them with an event.  Its one law beyond that is `step_append`: a decision, once made, does not
change when more symbols arrive.  That law is what makes reading online (any symbols, any
split into calls) agree with scanning the whole string at once:

* `Run S w ps r`: from `w`, the scanner consumes the pieces `ps` and is left with `r`;
* `Run.flatten`: the pieces and the rest are `w`, nothing lost or reordered;
* `Run.join`: a run on a first part, continued on its rest with new symbols behind it, is a run
  on the joined string;
* `Run.prefix_of_settled`: runs are deterministic, so every run is a prefix of one that ends
  where the scanner waits;
* `Run.exists_crossing`: behind a border in the string, a run is soon a run of what follows alone.
-/

variable {α ε : Type}

/-- A decision procedure on the unread symbols: `none` waits, `some (e, k)` consumes `k`. -/
structure Scanner (α ε : Type) where
  step : List α → Option (ε × Nat)
  step_pos : ∀ {w e k}, step w = some (e, k) → 0 < k
  step_le : ∀ {w e k}, step w = some (e, k) → k ≤ w.length
  step_append : ∀ {w r} (x : List α), step w = some r → step (w ++ x) = some r

/-- The symbols of a list of pieces, in order. -/
def consumed (ps : List (ε × List α)) : List α := ps.flatMap Prod.snd

@[simp] theorem consumed_nil : consumed ([] : List (ε × List α)) = [] := rfl

@[simp] theorem consumed_cons (p : ε × List α) (ps : List (ε × List α)) :
    consumed (p :: ps) = p.2 ++ consumed ps := rfl

@[simp] theorem consumed_append (ps qs : List (ε × List α)) :
    consumed (ps ++ qs) = consumed ps ++ consumed qs := by
  simp [consumed]

/-- From `w`, the scanner consumes the pieces `ps` and is left with `r`. -/
inductive Run (S : Scanner α ε) : List α → List (ε × List α) → List α → Prop
  | nil (w : List α) : Run S w [] w
  | cons {w : List α} {e : ε} {k : Nat} {ps : List (ε × List α)} {r : List α}
      (hstep : S.step w = some (e, k)) (hrest : Run S (w.drop k) ps r) :
      Run S w ((e, w.take k) :: ps) r

namespace Run

variable {S : Scanner α ε} {w r t : List α} {ps qs : List (ε × List α)}

/-- A single step is a run of one piece. -/
theorem one {e : ε} {k : Nat} (h : S.step w = some (e, k)) :
    Run S w [(e, w.take k)] (w.drop k) :=
  .cons h (.nil _)

/-- **Conservation.** The pieces and the rest, in order, are the string. -/
theorem flatten (h : Run S w ps r) : consumed ps ++ r = w := by
  induction h with
  | nil w => rfl
  | cons hstep _ ih => rw [consumed_cons, List.append_assoc, ih, List.take_append_drop]

theorem length_add (h : Run S w ps r) : (consumed ps).length + r.length = w.length := by
  rw [← List.length_append, h.flatten]

theorem trans (h₁ : Run S w ps r) (h₂ : Run S r qs t) : Run S w (ps ++ qs) t := by
  induction h₁ with
  | nil w => exact h₂
  | cons hstep _ ih => exact .cons hstep (ih h₂)

/-- More symbols behind the string do not change the pieces already consumed. -/
theorem extend (h : Run S w ps r) (x : List α) : Run S (w ++ x) ps (r ++ x) := by
  induction h with
  | nil w => exact .nil _
  | @cons w e k ps r hstep _ ih =>
    have hk := S.step_le hstep
    have htake : (w ++ x).take k = w.take k := List.take_append_of_le_length hk
    have hdrop : (w ++ x).drop k = w.drop k ++ x := List.drop_append_of_le_length hk
    rw [← htake]
    exact .cons (S.step_append x hstep) (hdrop ▸ ih)

/-- **Online is offline.** A run on a first part, continued on its rest with new symbols behind
    it, is a run on the joined string. -/
theorem join {u v : List α} (h₁ : Run S u ps r) (h₂ : Run S (r ++ v) qs t) :
    Run S (u ++ v) (ps ++ qs) t :=
  (h₁.extend v).trans h₂

/-- Where the scanner waits, a run is empty. -/
theorem eq_nil_of_settled (hw : S.step w = none) (h : Run S w ps r) : ps = [] ∧ r = w := by
  cases h with
  | nil => exact ⟨rfl, rfl⟩
  | cons hstep _ => rw [hw] at hstep; cases hstep

/-- **Determinism.** Every run is a prefix of one that ends where the scanner waits. -/
theorem prefix_of_settled (h₁ : Run S w ps r) (h₂ : Run S w qs t) (ht : S.step t = none) :
    ∃ us, qs = ps ++ us ∧ Run S r us t := by
  induction h₁ generalizing qs with
  | nil w => exact ⟨qs, rfl, h₂⟩
  | cons hstep _ ih =>
    cases h₂ with
    | nil => rw [ht] at hstep; cases hstep
    | cons hstep' hrest' =>
      obtain ⟨rfl, rfl⟩ : _ ∧ _ := Prod.mk.inj (Option.some.inj (hstep.symm.trans hstep'))
      obtain ⟨us, rfl, hus⟩ := ih hrest'
      exact ⟨us, rfl, hus⟩

/-- **Crossing a border.** A run over two joined strings that leaves no more than the second one
    gets past the border, with pieces that all start in front of it, to less than the longest step
    `m` behind it; from there on it is a run of the second string alone. -/
theorem exists_crossing {m : Nat} (hm : ∀ {w e k}, S.step w = some (e, k) → k ≤ m)
    {u v : List α} (h : Run S (u ++ v) ps r) (hr : r.length ≤ v.length) :
    ∃ before after k, ps = before ++ after ∧ k ≤ v.length ∧ (k = 0 ∨ k < m) ∧
      (consumed before).length = u.length + k ∧
      (∀ a p b, before = a ++ p :: b → (consumed a).length < u.length) ∧
      Run S (v.drop k) after r := by
  generalize hw : u ++ v = w at h
  induction h generalizing u with
  | nil w =>
    have hu : u = [] := by
      apply List.eq_nil_of_length_eq_zero
      rw [← hw, List.length_append] at hr
      omega
    subst hu
    exact ⟨[], [], 0, rfl, Nat.zero_le _, .inl rfl, rfl, by simp, hw ▸ .nil _⟩
  | @cons w e n ps r hstep hrest ih =>
    have hpos := S.step_pos hstep
    have hle := S.step_le hstep
    subst hw
    by_cases hu : u = []
    · -- nothing is in front of the border
      subst hu
      exact ⟨[], _, 0, rfl, Nat.zero_le _, .inl rfl, rfl, by simp, .cons hstep hrest⟩
    have hupos := List.length_pos_iff.mpr hu
    have htake : ((u ++ v).take n).length = n := by
      rw [List.length_take]
      omega
    by_cases hn : n ≤ u.length
    · -- the step stays in front of the border
      obtain ⟨before, after, k, rfl, hk, hbound, hlength, hstarts, hrun⟩ :=
        ih hr (List.drop_append_of_le_length hn).symm
      rw [List.length_drop] at hlength hstarts
      refine ⟨(e, (u ++ v).take n) :: before, after, k, rfl, hk, hbound, ?_, ?_, hrun⟩
      · rw [consumed_cons, List.length_append, htake, hlength]
        omega
      · intro a p b heq
        cases a with
        | nil => simpa using hupos
        | cons q a =>
          obtain ⟨rfl, htail⟩ := List.cons.inj heq
          have hstart := hstarts a p b htail
          rw [consumed_cons, List.length_append, htake]
          omega
    · -- the step goes across
      have hlast := hm hstep
      rw [List.length_append] at hle
      refine ⟨[(e, (u ++ v).take n)], ps, n - u.length, rfl, by omega, .inr (by omega), ?_, ?_, ?_⟩
      · rw [consumed_cons, consumed_nil, List.append_nil, htake]
        omega
      · intro a p b heq
        cases a with
        | nil => simpa using hupos
        | cons q a =>
          have hnil := (List.cons.inj heq).2
          simp at hnil
      · rwa [List.drop_append, List.drop_eq_nil_of_le (by omega), List.nil_append] at hrest

/-- A run from `w` that consumes one symbol `n` times over. -/
theorem units {e : ε} :
    ∀ {n : Nat} {w : List α}, n ≤ w.length → (∀ i < n, S.step (w.drop i) = some (e, 1)) →
      Run S w ((w.take n).map (fun a => (e, [a]))) (w.drop n)
  | 0, w, _, _ => by simpa using Run.nil w
  | n + 1, w, hn, hstep => by
    cases w with
    | nil => simp at hn
    | cons a w =>
      have h0 : S.step (a :: w) = some (e, 1) := by simpa using hstep 0 (Nat.succ_pos n)
      have hrest : ∀ i < n, S.step (w.drop i) = some (e, 1) := fun i hi => by
        simpa using hstep (i + 1) (Nat.succ_lt_succ hi)
      exact .cons h0 (units (Nat.le_of_succ_le_succ hn) hrest)

end Run

end Scanning
