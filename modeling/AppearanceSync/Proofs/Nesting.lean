import AppearanceSync.Canonical
import Mathlib.Order.Nat

/-!
# How deeply trees are nested

The search with a stack finds the longest way down a tree.  A limit on the depth refuses exactly
the trees that have a longer way than it allows, and the refusal says how long that way is.
-/

namespace AppearanceSync

namespace Descriptor

variable {d : Descriptor} {ds : List Descriptor} {n limit : ℕ}

/-! ## The longest way down -/

theorem nestingList_append (as bs : List Descriptor) :
    nestingList (as ++ bs) = max (nestingList as) (nestingList bs) := by
  induction as with
  | nil => simp [nestingList]
  | cons a as ih => simp [nestingList, ih, Nat.max_assoc]

theorem nesting_eq (d : Descriptor) : d.nesting = nestingList d.children := by
  obtain ⟨properties, overlays, underlays⟩ := d
  rw [nesting, children, nestingList_append]

theorem nestingList_le_iff : nestingList ds ≤ n ↔ ∀ d ∈ ds, d.nesting < n := by
  induction ds with
  | nil => simp [nestingList]
  | cons d ds ih => simp only [nestingList, Nat.max_le, ih, Nat.succ_le_iff, List.forall_mem_cons]

/-- A tree is nested by one level more than the deepest of what is drawn over and under it, and
not at all if there is none. -/
theorem nesting_le_iff : d.nesting ≤ n ↔ ∀ c ∈ d.children, c.nesting < n := by
  rw [nesting_eq, nestingList_le_iff]

/-! ## The search -/

/-- The level of a tree and those of all that is in it. -/
theorem add_nesting_le_iff {level : ℕ} :
    level + d.nesting ≤ n ↔ level ≤ n ∧ ∀ c ∈ d.children, level + 1 + c.nesting ≤ n := by
  constructor
  · intro h
    have hchildren := nesting_le_iff.mp (Nat.le_refl d.nesting)
    refine ⟨by omega, fun c hc => ?_⟩
    have hlt := hchildren c hc
    omega
  · rintro ⟨hlevel, hchildren⟩
    have hnesting : d.nesting ≤ n - level := by
      refine nesting_le_iff.mpr fun c hc => ?_
      have hle := hchildren c hc
      omega
    omega

/-- The search finds the lowest level that any tree on its stack reaches. -/
theorem deepestOf_le_iff {deepest : ℕ} {stack : List (Descriptor × ℕ)} :
    deepestOf deepest stack ≤ n ↔ deepest ≤ n ∧ ∀ e ∈ stack, e.2 + e.1.nesting ≤ n := by
  induction deepest, stack using deepestOf.induct with
  | case1 deepest => simp [deepestOf]
  | case2 deepest d level rest ih =>
      rw [deepestOf, ih, Nat.max_le, List.forall_mem_cons, add_nesting_le_iff]
      simp [or_imp, forall_and, and_assoc]

theorem depth_eq_nesting (d : Descriptor) : d.depth = d.nesting := by
  have hle (n : ℕ) : d.depth ≤ n ↔ d.nesting ≤ n := by simp [depth, deepestOf_le_iff]
  exact eq_of_forall_ge_iff hle

/-! ## The limit -/

/-- An answer that a limit decides: a tree nested more deeply is refused with its depth, and
every other one is accepted. -/
structure LimitedTo (d : Descriptor) (limit : ℕ) {β : Type} (answer : Except AppearanceError β) :
    Prop where
  refused : limit < d.nesting → answer = .error (.depthExceeded d.nesting limit)
  accepted : d.nesting ≤ limit → ∃ b, answer = .ok b

theorem validate_of_lt (h : limit < d.nesting) :
    d.validate limit = .error (.depthExceeded d.nesting limit) := by
  rw [validate, depth_eq_nesting, if_pos h]

theorem validate_of_le (h : d.nesting ≤ limit) : d.validate limit = .ok () := by
  rw [validate, depth_eq_nesting, if_neg (Nat.not_lt.mpr h)]

theorem limitedTo_canonicalize (d : Descriptor) (limit : ℕ) :
    d.LimitedTo limit (d.canonicalize limit) where
  refused h := by
    rw [canonicalize, validate_of_lt h]
    rfl
  accepted h := by
    rw [canonicalize, validate_of_le h]
    exact ⟨d.canonical, rfl⟩

end Descriptor
end AppearanceSync
