import Mathlib.Data.List.Basic

namespace Reading

/-!
# Programs that read memory

A `Reads ι β α` is a computation of an `α` that may look at memory cells `ι → β`, one at a time,
where later addresses may depend on what was read before.  `eval` is its result and `addresses`
the cells it looks at.  `Within mem S x` says that on the memory `mem` all of them are in `S`; it
is proved along the program with the rules `within_*`.  What lies outside cannot matter:

* `eval_congr`: two memories that agree on the cells a program looks at give the same result and
  the same cells.

`AtMost mem n x` bounds how often a program looks, with a rule for each construct (`atMost_*`).
-/

variable {ι β α γ : Type}

inductive Reads (ι β α : Type) where
  | done (a : α)
  | read (i : ι) (next : β → Reads ι β α)

namespace Reads

def bind : Reads ι β α → (α → Reads ι β γ) → Reads ι β γ
  | done a, f => f a
  | read i next, f => read i fun b => (next b).bind f

instance : Monad (Reads ι β) where
  pure := done
  bind := bind

/-- The content of one cell. -/
def get (i : ι) : Reads ι β β := read i done

/-- The contents of a list of cells, in order. -/
def getAll : List ι → Reads ι β (List β)
  | [] => pure []
  | i :: is => do
    let b ← get i
    let bs ← getAll is
    pure (b :: bs)

/-- The result on a memory. -/
def eval (mem : ι → β) : Reads ι β α → α
  | done a => a
  | read i next => eval mem (next (mem i))

/-- The cells looked at on a memory, in order. -/
def addresses (mem : ι → β) : Reads ι β α → List ι
  | done _ => []
  | read i next => i :: addresses mem (next (mem i))

variable (mem : ι → β)

@[simp] theorem eval_pure (a : α) : eval mem (pure a : Reads ι β α) = a := rfl

@[simp] theorem eval_get (i : ι) : eval mem (get i) = mem i := rfl

@[simp] theorem eval_bind (x : Reads ι β α) (f : α → Reads ι β γ) :
    eval mem (x >>= f) = eval mem (f (eval mem x)) := by
  induction x with
  | done a => rfl
  | read i next ih => exact ih (mem i)

theorem eval_ite (c : Prop) [Decidable c] (x y : Reads ι β α) :
    eval mem (if c then x else y) = if c then eval mem x else eval mem y := by
  split <;> rfl

@[simp] theorem eval_getAll (is : List ι) : eval mem (getAll is) = is.map mem := by
  induction is with
  | nil => rfl
  | cons i is ih => simp [getAll, ih]

theorem addresses_bind (x : Reads ι β α) (f : α → Reads ι β γ) :
    addresses mem (x >>= f) = addresses mem x ++ addresses mem (f (eval mem x)) := by
  induction x with
  | done a => rfl
  | read i next ih => exact congrArg (i :: ·) (ih (mem i))

/-! ### Staying within a set of cells -/

/-- Every cell looked at is in `S`. -/
def Within (S : ι → Prop) (x : Reads ι β α) : Prop := ∀ i ∈ addresses mem x, S i

section Rules

variable {mem} {S : ι → Prop}

theorem within_pure (a : α) : Within mem S (pure a : Reads ι β α) := by
  intro i hi
  cases hi

theorem within_get {i : ι} (h : S i) : Within mem S (get i) := by
  intro j hj
  rw [List.mem_singleton.mp hj]
  exact h

theorem within_bind {x : Reads ι β α} {f : α → Reads ι β γ} (hx : Within mem S x)
    (hf : Within mem S (f (eval mem x))) : Within mem S (x >>= f) := by
  intro i hi
  rw [addresses_bind] at hi
  rcases List.mem_append.mp hi with hi | hi
  · exact hx i hi
  · exact hf i hi

theorem within_ite {c : Prop} [Decidable c] {x y : Reads ι β α} (hx : c → Within mem S x)
    (hy : ¬ c → Within mem S y) : Within mem S (if c then x else y) := by
  split
  · rename_i h
    exact hx h
  · rename_i h
    exact hy h

theorem within_getAll {is : List ι} (h : ∀ i ∈ is, S i) :
    Within mem S (getAll is : Reads ι β (List β)) := by
  induction is with
  | nil => exact within_pure []
  | cons i is ih =>
    refine within_bind (within_get (h i List.mem_cons_self)) (within_bind ?_ (within_pure _))
    exact ih fun j hj => h j (List.mem_cons_of_mem i hj)

theorem Within.mono {T : ι → Prop} {x : Reads ι β α} (h : Within mem S x)
    (hsub : ∀ i, S i → T i) : Within mem T x :=
  fun i hi => hsub i (h i hi)

end Rules

/-! ### Counting the cells -/

/-- At most `n` cells are looked at. -/
def AtMost (n : ℕ) (x : Reads ι β α) : Prop := (addresses mem x).length ≤ n

section Counts

variable {mem} {m n : ℕ}

theorem atMost_pure (a : α) : AtMost mem n (pure a : Reads ι β α) := Nat.zero_le n

theorem atMost_get (i : ι) : AtMost mem 1 (get i) := Nat.le_refl 1

theorem atMost_bind {x : Reads ι β α} {f : α → Reads ι β γ} (hx : AtMost mem m x)
    (hf : AtMost mem n (f (eval mem x))) : AtMost mem (m + n) (x >>= f) := by
  unfold AtMost
  rw [addresses_bind, List.length_append]
  exact Nat.add_le_add hx hf

theorem atMost_ite {c : Prop} [Decidable c] {x y : Reads ι β α} (hx : c → AtMost mem n x)
    (hy : ¬ c → AtMost mem n y) : AtMost mem n (if c then x else y) := by
  split
  · rename_i h
    exact hx h
  · rename_i h
    exact hy h

theorem atMost_getAll (is : List ι) :
    AtMost mem is.length (getAll is : Reads ι β (List β)) := by
  induction is with
  | nil => exact atMost_pure []
  | cons i is ih =>
    rw [List.length_cons, Nat.add_comm]
    refine atMost_bind (atMost_get i) (n := is.length) ?_
    exact atMost_bind ih (n := 0) (atMost_pure _)

theorem AtMost.mono {x : Reads ι β α} (h : AtMost mem m x) (hle : m ≤ n) : AtMost mem n x :=
  Nat.le_trans h hle

end Counts

/-- **What a program does not look at does not matter.** -/
theorem eval_congr {mem mem' : ι → β} {x : Reads ι β α}
    (h : Within mem (fun i => mem i = mem' i) x) :
    eval mem' x = eval mem x ∧ addresses mem' x = addresses mem x := by
  induction x with
  | done a => exact ⟨rfl, rfl⟩
  | read i next ih =>
    have hi : mem i = mem' i := h i List.mem_cons_self
    have hrest := ih (mem i) fun j hj => h j (List.mem_cons_of_mem i hj)
    unfold eval addresses
    rw [← hi]
    exact ⟨hrest.1, congrArg (i :: ·) hrest.2⟩

end Reads

end Reading
